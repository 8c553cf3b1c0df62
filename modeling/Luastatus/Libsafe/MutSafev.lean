import Luastatus.Libsafe.Safev

/-!
# Views that are written to

A `MUT_SAFEV` is a view of a buffer of fixed length.  Here it is the bytes of the buffer, and a
function that writes to it returns the buffer after the write.

A loop that fills a buffer from the left has written some bytes and leaves the others as they were;
`mutSafevSetAt_append` is one more write.
-/

namespace Luastatus.Libsafe

open Text (Byte Bytes)
open LibLs

/-- `MUT_SAFEV_set_at`. -/
def mutSafevSetAt (mv : Bytes) (i : Nat) (c : Byte) : Except AssertFailure Bytes := do
  lsAssert (i < mv.length) "i < Mv.mut_n__"
  return mv.set i c

theorem mutSafevSetAt_append {written : Bytes} {i : Nat} (hi : i = written.length) (b : Byte)
    (rest : Bytes) (c : Byte) :
    mutSafevSetAt (written ++ b :: rest) i c = .ok (written ++ [c] ++ rest) := by
  subst hi
  rw [mutSafevSetAt, lsAssert_bind_of_pos (by simp)]
  simp [pure, Except.pure]

end Luastatus.Libsafe
