import Mathlib.Data.List.Basic

/-!
# BeanRaft.Lib.Stream — the buffer of an output stream

A stream puts what it is given into a buffer, and from there writes it to its file, at times that are the stream's own.  The
write can come short: then the rest stays in the buffer, or is dropped with it.

* `Transfer`: the outcome of such a write.  `taken` of the buffer is then in the file, `left` still in the buffer.
* `Carries`: what is in the file and in the buffer is what the stream was given, without what was lost.
* `Carries.push`, `Carries.transfer`: what the two operations of a stream do to it.
-/

namespace BeanRaft.Lib

variable {α : Type}

/-- All of the buffer is written, or its first `n` elements; then the rest stays, or is dropped. -/
inductive Transfer
  | whole
  | part (n : Nat) (drops : Bool)
  deriving DecidableEq, Repr

namespace Transfer

def taken (buf : List α) : Transfer → List α
  | whole => buf
  | part n _ => buf.take n

def left (buf : List α) : Transfer → List α
  | whole => []
  | part n false => buf.drop n
  | part _ true => []

/-- Something of the buffer is neither in the file nor in the buffer. -/
def loses [DecidableEq α] (buf : List α) (t : Transfer) : Bool := t.taken buf ++ t.left buf ≠ buf

/-- Nothing is dropped. -/
def Keeps (t : Transfer) : Prop := ∀ n, t ≠ part n true

/-- The last write of a stream: its buffer is given up. -/
def last : Transfer → Transfer
  | whole => whole
  | part n _ => part n true

theorem keeps_whole : Keeps whole := fun _ h => nomatch h

theorem taken_left_sublist (buf : List α) (t : Transfer) : (t.taken buf ++ t.left buf).Sublist buf := by
  rcases t with _ | ⟨n, _ | _⟩
  · exact (List.append_nil buf).symm ▸ List.Sublist.refl buf
  · exact (List.take_append_drop n buf).symm ▸ List.Sublist.refl buf
  · exact (List.append_nil (buf.take n)).symm ▸ List.take_sublist n buf

theorem taken_left (buf : List α) {t : Transfer} (h : t.Keeps) : t.taken buf ++ t.left buf = buf := by
  rcases t with _ | ⟨n, _ | _⟩
  · exact List.append_nil buf
  · exact List.take_append_drop n buf
  · exact absurd rfl (h n)

theorem loses_of_keeps [DecidableEq α] (buf : List α) {t : Transfer} (h : t.Keeps) : t.loses buf = false := by
  unfold loses
  simp [taken_left buf h]

theorem left_last (buf : List α) (t : Transfer) : t.last.left buf = [] := by
  cases t <;> rfl

end Transfer

/-- `written` is in the file and `buf` in the buffer of a stream that was given `given`: nothing else, in this order, and
all of it when nothing was lost. -/
structure Carries (written buf given : List α) (lost : Bool) : Prop where
  sublist : (written ++ buf).Sublist given
  complete : lost = false → written ++ buf = given

section Carries

variable {written buf given : List α} {lost lost' : Bool}

theorem Carries.new (buf : List α) (lost : Bool) : Carries [] buf buf lost := ⟨List.Sublist.refl _, fun _ => rfl⟩

/-- The stream is given more. -/
theorem Carries.push (h : Carries written buf given lost) (l : List α) : Carries written (buf ++ l) (given ++ l) lost := by
  constructor
  · rw [← List.append_assoc]
    exact h.sublist.append (List.Sublist.refl l)
  · intro hl
    rw [← List.append_assoc, h.complete hl]

/-- The buffer is written to the file. -/
theorem Carries.transfer [DecidableEq α] (h : Carries written buf given lost) (t : Transfer) :
    Carries (written ++ t.taken buf) (t.left buf) given (lost || t.loses buf) := by
  constructor
  · rw [List.append_assoc]
    exact ((List.Sublist.refl written).append (t.taken_left_sublist buf)).trans h.sublist
  · intro hl
    obtain ⟨hlost, hloses⟩ := Bool.or_eq_false_iff.mp hl
    have hkeep : t.taken buf ++ t.left buf = buf := by simpa [Transfer.loses] using hloses
    rw [List.append_assoc, hkeep, h.complete hlost]

theorem Carries.mono (h : Carries written buf given lost) (hl : lost' = false → lost = false) :
    Carries written buf given lost' := ⟨h.sublist, fun hf => h.complete (hl hf)⟩

end Carries

end BeanRaft.Lib
