/-!
# Powers

Powers of natural numbers and integers are those that the kernel computes with
directly, in every module. Powers in an arbitrary monoid agree with them, but a
number such as `2 ^ 1074` would then have to be multiplied out one factor at a
time.
-/

attribute [instance (20000)] instPowNat

attribute [default_instance (20000)] instPowNat
