import Docket.Cbor.Data

/-!
# Reading CBOR

CBOR as data: the item that bytes begin with, and what it stands for. Bytes after
the item are left unread.

## Main definitions

* `readCbor?`: The data of bytes.
-/

namespace Docket

/-- The data of bytes that begin with a CBOR item. -/
def readCbor? (bytes : Bytes) : Option Value := (CborItem.ofBytes? bytes).bind (·.value?)

end Docket
