import BeanRaft.Lib.Heap

/-!
# BeanRaft.Lib.Stores — stores of single elements into a buffer

* `storeAll`: the stores of a list, one after the other, `none` when one is outside the buffer.
* `placed`: consecutive elements with their places.  `storeAll_reverse`: stored from right to left they replace what was
  there, and nothing else.
-/

namespace BeanRaft.Lib

variable {β : Type} {buf : List β} {off : Nat} {b : β} {bs : List β}

def storeAll (buf : List β) : List (Nat × β) → Option (List β)
  | [] => some buf
  | (i, b) :: ws => (write buf i [b]).bind fun buf => storeAll buf ws

/-- The elements with their places, from `off` on. -/
def placed (off : Nat) : List β → List (Nat × β)
  | [] => []
  | b :: bs => (off, b) :: placed (off + 1) bs

theorem storeAll_append (ws us : List (Nat × β)) :
    storeAll buf (ws ++ us) = (storeAll buf ws).bind fun buf => storeAll buf us := by
  induction ws generalizing buf with
  | nil => rfl
  | cons w ws ih =>
    obtain ⟨i, b⟩ := w
    show (write buf i [b]).bind _ = ((write buf i [b]).bind _).bind _
    rw [Option.bind_assoc]
    congr 1
    funext buf
    exact ih

theorem placed_append (bs cs : List β) : placed off (bs ++ cs) = placed off bs ++ placed (off + bs.length) cs := by
  induction bs generalizing off with
  | nil => rfl
  | cons b bs ih =>
    show (off, b) :: placed (off + 1) (bs ++ cs) = (off, b) :: (placed (off + 1) bs ++ _)
    rw [ih, List.length_cons, Nat.add_assoc, Nat.add_comm 1]

theorem map_fst_placed (off : Nat) (bs : List β) : (placed off bs).map Prod.fst = List.range' off bs.length := by
  induction bs generalizing off with
  | nil => rfl
  | cons b bs ih =>
    show off :: (placed (off + 1) bs).map Prod.fst = _
    rw [ih, List.length_cons, List.range'_succ]

theorem map_placed {γ : Type} (f : β → γ) (off : Nat) (bs : List β) :
    (placed off bs).map (Prod.map id f) = placed off (bs.map f) := by
  induction bs generalizing off with
  | nil => rfl
  | cons b bs ih => exact congrArg ((off, f b) :: ·) (ih (off + 1))

/-- A store in the middle of a buffer. -/
theorem write_middle (P Q : List β) (x c : β) {k : Nat} (hk : k = P.length) :
    write (P ++ x :: Q) k [c] = some (P ++ c :: Q) := by
  subst hk
  unfold write
  rw [if_pos (by simp)]
  simp

/-- **Stores from right to left** into the part `M` of a buffer. -/
theorem storeAll_reverse (A B : List β) : ∀ {M bs : List β}, M.length = bs.length →
    storeAll (A ++ M ++ B) (placed A.length bs).reverse = some (A ++ bs ++ B) := by
  intro M bs
  induction bs generalizing A M with
  | nil =>
    intro hM
    rw [List.length_eq_zero_iff.mp hM]
    rfl
  | cons b bs ih =>
    intro hM
    obtain ⟨x, M, rfl⟩ := List.exists_cons_of_length_pos (l := M) (by rw [hM]; exact Nat.succ_pos _)
    -- the first element is stored last
    have hrest := ih (A ++ [x]) (M := M) (Nat.succ.inj hM)
    have hlast : storeAll (A ++ [x] ++ bs ++ B) [(A.length, b)] = some (A ++ b :: bs ++ B) := by
      show (write (A ++ [x] ++ bs ++ B) A.length [b]).bind _ = _
      rw [show A ++ [x] ++ bs ++ B = A ++ x :: (bs ++ B) by simp, write_middle A _ x b rfl]
      simp [storeAll]
    rw [List.length_append, List.length_singleton] at hrest
    show storeAll _ (((A.length, b) :: placed (A.length + 1) bs).reverse) = _
    rw [List.reverse_cons, storeAll_append, show A ++ x :: M ++ B = A ++ [x] ++ M ++ B by simp, hrest, Option.bind_some,
      hlast]

end BeanRaft.Lib
