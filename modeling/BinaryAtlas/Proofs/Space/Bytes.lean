import BinaryAtlas.Proofs.Space.Settling
import BinaryAtlas.Space.Bytes

/-!
What the operations on bytes answer, and where they lead: to where the backend puts the bytes, with
a note of them unless nothing was taken.
-/

set_option autoImplicit false

namespace BinaryAtlas

namespace Space

variable {s : Space} {a : Word} {storage : Storage}

theorem write_settles {data : List UInt8} {count : Nat} (given : data ≠ [])
    (wrote : s.backend.write s.map s.storage a data = (storage, count)) :
    (write a data).Settles s count
      (noted (count != 0) (.write a ((s.read a data.length).take count) (data.take count))
        { s with storage := storage }) := by
  have nonempty : data.isEmpty = false := by simpa using given
  unfold write
  simp only [nonempty, Bool.false_eq_true, if_false, Op.read_bind_settles, Op.update_bind_settles,
    wrote]
  by_cases nothing : count = 0
  · simp [noted, nothing]
  · have counted : (count != 0) = true := by simpa using nothing
    rw [if_neg nothing, counted]
    simp

theorem insert_settles {data : List UInt8} {count : Nat} (given : data ≠ [])
    (inserted : s.backend.insert s.storage a data = (storage, count)) :
    (insert a data).Settles s count
      (noted (count != 0) (.insert a (data.take count)) { s with storage := storage }) := by
  have nonempty : data.isEmpty = false := by simpa using given
  unfold insert
  simp only [nonempty, Bool.false_eq_true, if_false, Op.update_bind_settles, inserted]
  by_cases nothing : count = 0
  · simp [noted, nothing]
  · have counted : (count != 0) = true := by simpa using nothing
    rw [if_neg nothing, counted]
    simp

theorem remove_settles {length count : Word} (given : length ≠ 0)
    (removed : s.backend.remove s.storage a length = (storage, count)) :
    (remove a length).Settles s count
      (noted (count != 0) (.remove a ((s.read a length.toNat).take count.toNat))
        { s with storage := storage }) := by
  unfold remove
  simp only [given, if_false, Op.read_bind_settles, Op.update_bind_settles, removed]
  by_cases nothing : count = 0
  · simp [noted, nothing]
  · have counted : (count != 0) = true := by simpa using nothing
    rw [if_neg nothing, counted]
    simp

end Space

end BinaryAtlas
