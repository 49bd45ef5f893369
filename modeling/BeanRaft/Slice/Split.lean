import BeanRaft.Lib.Split
import BeanRaft.Slice.Equality
import BeanRaft.Slice.SplitArgs

/-!
# BeanRaft.Slice.Split — sdssplitlen and the joins

* `splitLoop`: the scan of `sdssplitlen` with its array of tokens, which it enlarges when it must, and what it frees
  when an allocation fails.
* `sdssplitlen_pieces`: under any allocator, the tokens are the pieces of the string, or NULL is returned and nothing is
  left of what was allocated.
* `joinLoop`, `adds_joinLoop`: the loop of the two joins; `sdsjoin_text`, `sdsjoinsds_text`: joining C strings and an
  array of strings.
* `join_of_split`, `split_of_join`: the one after the other.
-/

namespace BeanRaft.Slice

open CInt Lib

/-! ## sdssplitlen -/

/-- `(seplen == 1 && *(s+j) == sep[0]) || (memcmp(s+j,sep,seplen) == 0)` -/
def hasSep (m : Mem) (s : Src) (j : Nat) (sep : Src) (seplen : Nat) : Option Bool :=
  (if seplen = 1 then (s.byte m j).bind fun a => (sep.byte m 0).map fun b => decide (a = b) else some false).bind fun hit =>
    if hit then some true
    else ((s.add j).bytes m).bind fun a => (sep.bytes m).bind fun b => (memcmp a b seplen).map fun cmp => decide (cmp = 0)

/-- `for (i = 0; i < elements; i++) sdsfree(tokens[i]);`, with `n` elements from `i` on left. -/
def freeElements (tokens : Ptr) : Nat → Space → Nat → Option Space
  | 0, σ, _ => some σ
  | n + 1, σ, i => (σ.readVec tokens i).bind fun s => (σ.sdsfree (some s)).bind fun σ => freeElements tokens n σ (i + 1)

/-- The label `cleanup`. -/
def splitCleanup (σ : Space) (tokens : Ptr) (elements : Nat) : Option (Space × Option Ptr × Option Nat) :=
  (freeElements tokens elements σ 0).bind fun σ => (σ.freeVec (some tokens)).map fun σ => (σ, none, some 0)

/-- `tokens[elements] = sdsnewlen(s+start,n); if (tokens[elements] == NULL) goto cleanup;` -/
def putPiece (σ : Space) (s : Src) (start n : Nat) (tokens : Ptr) (elements : Nat)
    (k : Space → Option (Space × Option Ptr × Option Nat)) : Option (Space × Option Ptr × Option Nat) :=
  (sdsnewlen σ.mem (s.add start) n).bind fun (m, token) =>
    ({ σ with mem := m }.storeVec tokens elements token).bind fun σ =>
      if token = none then splitCleanup σ tokens elements else k σ

/-- Room for the next element and the final one: the array, or NULL, and the new `slots`, an `int`. -/
def moreSlots (σ : Space) (tokens : Ptr) (slots elements : Nat) : Option (Space × Option Ptr × Nat) :=
  if slots < elements + 2 then
    (intResult (slots * 2)).bind fun slots =>
      (σ.reallocVec (some tokens) slots.toNat).map fun (σ, newtokens) => (σ, newtokens, slots.toNat)
  else some (σ, some tokens, slots)

/-- The loop, and what follows it.  `j` moves on in every turn. -/
def splitLoop (s : Src) (len : Nat) (sep : Src) (seplen : Nat) :
    Nat → Space → Ptr → Nat → Nat → Nat → Nat → Option (Space × Option Ptr × Option Nat)
  | 0, _, _, _, _, _, _ => none
  | fuel + 1, σ, tokens, slots, elements, start, j =>
    if j + seplen ≤ len then -- `j < (len-(seplen-1))`
      (moreSlots σ tokens slots elements).bind fun
        | (σ, none, _) => splitCleanup σ tokens elements
        | (σ, some tokens, slots) =>
          (hasSep σ.mem s j sep seplen).bind fun hit =>
            if hit then
              putPiece σ s start (j - start) tokens elements fun σ =>
                splitLoop s len sep seplen fuel σ tokens slots (elements + 1) (j + seplen) (j + seplen)
            else splitLoop s len sep seplen fuel σ tokens slots elements start (j + 1)
    else putPiece σ s start (len - start) tokens elements fun σ => some (σ, some tokens, some (elements + 1))

/-- `sdssplitlen` (line 903): the array and `*count`, when that is written. -/
def sdssplitlen (σ : Space) (s : Src) (len : Int) (sep : Src) (seplen : Int) :
    Option (Space × Option Ptr × Option Nat) :=
  if seplen < 1 ∨ len < 0 then some (σ, none, none)
  else
    (σ.reallocVec none 5).bind fun
      | (σ, none) => some (σ, none, none)
      | (σ, some tokens) =>
        if len = 0 then some (σ, some tokens, some 0)
        else splitLoop s len.toNat sep seplen.toNat (len.toNat + 1) σ tokens 5 0 0 0

/-! ## sdsjoin, sdsjoinsds -/

/-- `sdscat` (line 412) -/
def Space.sdscat (σ : Space) (s : Option Ptr) (t : Src) : Option (Space × Option Ptr) :=
  (t.strlen σ.mem).bind fun n => σ.sdscatlen s t n

/-- A call of `sdscatsds`; `s` of NULL is undefined. -/
def Space.sdscatsds (σ : Space) (s : Option Ptr) (t : Ptr) : Option (Space × Option Ptr) :=
  s.bind fun s => (Slice.sdscatsds σ.mem s t).map fun (m, r) => ({ σ with mem := m }, r)

/-- The loop of the two joins, with `n` strings from `j` on left: `cat j` appends the next one, `catSep` the separator. -/
def joinLoop (argc : Nat) (cat : Nat → Space → Option Ptr → Option (Space × Option Ptr))
    (catSep : Space → Option Ptr → Option (Space × Option Ptr)) : Nat → Space → Option Ptr → Nat →
    Option (Space × Option Ptr)
  | 0, σ, join, _ => some (σ, join)
  | n + 1, σ, join, j =>
    (cat j σ join).bind fun (σ, join) =>
      (if j ≠ argc - 1 then catSep σ join else some (σ, join)).bind fun (σ, join) =>
        joinLoop argc cat catSep n σ join (j + 1)

/-- `sdsjoin` (line 1177); `argv` is an array of the caller. -/
def sdsjoin (σ : Space) (argv : List Src) (argc : Nat) (sep : Src) : Option (Space × Option Ptr) :=
  (sdsempty σ.mem).bind fun (m, join) =>
    joinLoop argc (fun j σ join => argv[j]?.bind fun t => σ.sdscat join t) (fun σ join => σ.sdscat join sep) argc
      { σ with mem := m } join 0

/-- `sdsjoinsds` (line 1189) -/
def sdsjoinsds (σ : Space) (argv : Ptr) (argc : Nat) (sep : Src) (seplen : Nat) : Option (Space × Option Ptr) :=
  (sdsempty σ.mem).bind fun (m, join) =>
    joinLoop argc (fun j σ join => (σ.readVec argv j).bind fun t => σ.sdscatsds join t)
      (fun σ join => σ.sdscatlen join sep seplen) argc { σ with mem := m } join 0

/-! ## Freeing -/

section Free

variable {gv : Nat → Option (List (Option Ptr))} {g : Nat → Option Sdshdr} {σ : Space} {rest : List (Option Ptr)}
  {w n : Nat} {ds ts l : List (Ptr × List UInt8)}

/-- The strings are freed from the first one on; those of `ds` are gone already. -/
theorem freeElements_texts (ho : Texts g (ts ++ l) σ.mem) (hv : VecHolds gv σ (tokenSlots (ds ++ ts) ++ rest) (some w)) :
    ∃ m, freeElements w ts.length σ ds.length = some { σ with mem := m } ∧ m.fails = σ.mem.fails ∧ Texts g l m := by
  induction ts generalizing σ ds with
  | nil => exact ⟨σ.mem, rfl, rfl, ho⟩
  | cons t ts ih =>
    have hread : σ.readVec w ds.length = some t.1 := by
      rw [readVec_some hv (by simp)]
      simp
    obtain ⟨m, hfree, hf, hrest⟩ := Space.sdsfree_texts ho
    have hds : ds ++ t :: ts = (ds ++ [t]) ++ ts := by simp
    rw [hds] at hv
    obtain ⟨m', hloop, hf', ho'⟩ := ih (σ := { σ with mem := m }) hrest (hv.withMem m)
    rw [List.length_append, List.length_singleton] at hloop
    refine ⟨m', ?_, hf'.trans hf, ho'⟩
    show (σ.readVec w ds.length).bind _ = _
    rw [hread, Option.bind_some, hfree]
    exact hloop

theorem splitCleanup_texts (ho : Texts g ts σ.mem) (hv : VecHolds gv σ (tokenSlots ts ++ rest) (some w)) :
    ∃ σ', splitCleanup σ w ts.length = some (σ', none, some 0) ∧ σ'.mem.heap.get = g ∧ σ'.vecs.get = gv ∧
      σ'.mem.fails = σ.mem.fails ∧ σ'.bufs = σ.bufs := by
  rw [← List.append_nil ts] at ho
  have hnone : VecHolds gv σ (tokenSlots ([] ++ ts) ++ rest) (some w) := hv
  obtain ⟨m, hfree, hf, ho'⟩ := freeElements_texts ho hnone
  obtain ⟨σ', hvec, hget, hm, hb⟩ := freeVec_some (hv.withMem m)
  refine ⟨σ', ?_, hm ▸ Owns.nil_eq ho', hget, hm ▸ hf, hb⟩
  unfold splitCleanup
  rw [show freeElements w ts.length σ 0 = _ from hfree, Option.bind_some, hvec]
  rfl

end Free

/-! ## The scan -/

/-- The array of the pieces of `fs`; or NULL for a failed allocation, and nothing is left beside the frame. -/
def SplitEnd (g : Nat → Option Sdshdr) (gv : Nat → Option (List (Option Ptr))) (σ : Space) (cs fs : List UInt8)
    (r : Option (Space × Option Ptr × Option Nat)) : Prop :=
  ∃ σ', σ'.bufs = σ.bufs ∧ σ'.mem.fails <:+ σ.mem.fails ∧
    (r = some (σ', none, some 0) ∧ σ'.mem.heap.get = g ∧ σ'.vecs.get = gv ∧ true ∈ σ.mem.fails ∨
      ∃ ts w rest, r = some (σ', some w, some ts.length) ∧ Pieces cs fs (ts.map Prod.snd) ∧ Texts g ts σ'.mem ∧
        VecHolds gv σ' (tokenSlots ts ++ rest) (some w))

section Scan

variable {gv : Nat → Option (List (Option Ptr))} {g : Nat → Option Sdshdr} {σ σ1 : Space} {rest : List (Option Ptr)}
  {slot : Option Ptr} {w n j start slots fuel : Nat} {ts l : List (Ptr × List UInt8)} {s sep : Src} {m : Mem}
  {fs cs p piece left : List UInt8} {r : Option (Space × Option Ptr × Option Nat)}

theorem SplitEnd.after (h : SplitEnd g gv σ1 cs fs r) (hfails : σ1.mem.fails <:+ σ.mem.fails) (hb : σ1.bufs = σ.bufs) :
    SplitEnd g gv σ cs fs r := by
  obtain ⟨σ', hb', hf', ⟨hr, hg, hv, htrue⟩ | hok⟩ := h
  · exact ⟨σ', hb'.trans hb, hf'.trans hfails, .inl ⟨hr, hg, hv, hfails.subset htrue⟩⟩
  · exact ⟨σ', hb'.trans hb, hf'.trans hfails, .inr hok⟩

/-- The comparison finds a separator where there is one. -/
theorem hasSep_eq (hs : Fixed g s fs) (hsep : Fixed g sep cs) (ho : Texts g l m) (hj : j + cs.length ≤ fs.length)
    (hne : cs ≠ []) : ∃ hit, hasSep m s j sep cs.length = some hit ∧ (hit = true ↔ cs <+: fs.drop j) := by
  have hjlt : j < fs.length := by
    have hpos := List.length_pos_iff.mpr hne
    omega
  have hmem : ∃ hit, (((s.add j).bytes m).bind fun a => (sep.bytes m).bind fun b =>
      (memcmp a b cs.length).map fun cmp => decide (cmp = 0)) = some hit ∧ (hit = true ↔ cs <+: fs.drop j) := by
    obtain ⟨rest1, h1⟩ := (hs.drop (Nat.le_of_lt hjlt)).bytes
    obtain ⟨rest2, h2⟩ := hsep.bytes
    have hlen : cs.length ≤ (fs.drop j).length := by
      rw [List.length_drop]
      omega
    obtain ⟨cmp, hcmp, hiff⟩ := memcmp_eq_zero (s := rest1) (t := rest2) hlen (Nat.le_refl cs.length)
    refine ⟨decide (cmp = 0), by rw [h1 l m ho, h2 l m ho, Option.bind_some, Option.bind_some, hcmp]; rfl, ?_⟩
    rw [decide_eq_true_eq, hiff, List.take_length, List.prefix_iff_eq_take]
    exact eq_comm
  unfold hasSep
  by_cases hone : cs.length = 1
  · obtain ⟨b, rfl⟩ := List.length_eq_one_iff.mp hone
    have hb : sep.byte m 0 = some b := hsep.byte ho (by rw [hone]; exact Nat.one_pos)
    rw [if_pos hone, hs.byte ho hjlt, hb, Option.bind_some, Option.map_some, Option.bind_some]
    by_cases heq : fs[j] = b
    · refine ⟨true, by simp [heq], fun _ => ?_, fun _ => rfl⟩
      rw [List.drop_eq_getElem_cons hjlt, heq]
      exact ⟨_, rfl⟩
    · rw [if_neg (by simpa using heq)]
      exact hmem
  · rw [if_neg hone, Option.bind_some, if_neg (by decide)]
    exact hmem

/-- A piece is made and stored, or everything is freed. -/
theorem putPiece_ends {k : Space → Option (Space × Option Ptr × Option Nat)} (hpiece : Fixed g (s.add start) piece)
    (hinit : s ≠ .noinit) (hlen : piece.length + 18 < 2 ^ 64) (ho : Texts g ts σ.mem)
    (hv : VecHolds gv σ (tokenSlots ts ++ slot :: rest) (some w))
    (hk : ∀ σ1 q, σ1.mem.fails <:+ σ.mem.fails → σ1.bufs = σ.bufs → Texts g (ts ++ [(q, piece)]) σ1.mem →
      VecHolds gv σ1 (tokenSlots (ts ++ [(q, piece)]) ++ rest) (some w) → SplitEnd g gv σ1 cs fs (k σ1)) :
    SplitEnd g gv σ cs fs (putPiece σ s start piece.length w ts.length k) := by
  have hnull : s.add start ≠ .null := by
    intro h
    obtain ⟨rest1, hbytes⟩ := hpiece.bytes
    have hnone := hbytes ts σ.mem ho
    rw [h] at hnone
    cases hnone
  have hno : s.add start ≠ .noinit := by
    cases s with
    | noinit => exact absurd rfl hinit
    | null => exact fun h => by cases h
    | ext bs => exact fun h => by cases h
    | sds x off => exact fun h => by cases h
  have hi : ts.length < (tokenSlots ts ++ slot :: rest).length := by
    rw [List.length_append, tokenSlots, List.length_map, List.length_cons]
    omega
  have hset : ∀ o, (tokenSlots ts ++ slot :: rest).set ts.length o = tokenSlots ts ++ o :: rest := by
    intro o
    have hlen : (tokenSlots ts).length = ts.length := List.length_map _
    rw [← hlen, List.set_append_right _ _ (Nat.le_refl _), Nat.sub_self]
    rfl
  obtain ⟨m, hfails, ⟨hnew, hheap, htrue⟩ | ⟨q, hnew, ho1⟩⟩ := sdsnewlen_text ho hnull hno (hpiece.read ho) hlen
  · obtain ⟨σ1, hstore, hv1, hm1, hb1⟩ := storeVec_some (hv.withMem m) hi none
    rw [hset] at hv1
    have ho1 : Texts g ts σ1.mem := by
      unfold Texts
      rw [hm1]
      show Owns Text g ts m.heap.get
      rw [hheap]
      exact ho
    obtain ⟨σ2, hclean, hg, hgv, hf2, hb2⟩ := splitCleanup_texts ho1 hv1
    refine ⟨σ2, hb2.trans hb1, by rw [hf2, hm1]; exact hfails, .inl ⟨?_, hg, hgv, htrue⟩⟩
    unfold putPiece
    rw [hnew, Option.bind_some]
    dsimp only
    rw [hstore, Option.bind_some, if_pos rfl, hclean]
  · obtain ⟨σ1, hstore, hv1, hm1, hb1⟩ := storeVec_some (hv.withMem m) hi (some q)
    rw [hset] at hv1
    have hslots : tokenSlots ts ++ some q :: rest = tokenSlots (ts ++ [(q, piece)]) ++ rest := by simp [tokenSlots]
    rw [hslots] at hv1
    have ho2 : Texts g (ts ++ [(q, piece)]) σ1.mem := by
      unfold Texts
      rw [hm1]
      exact Owns.perm ho1 (List.perm_append_singleton _ _).symm
    have hfails1 : σ1.mem.fails <:+ σ.mem.fails := by
      rw [hm1]
      exact hfails
    have hend := (hk σ1 q hfails1 hb1 ho2 hv1).after hfails1 hb1
    unfold putPiece
    rw [hnew, Option.bind_some]
    dsimp only
    rw [hstore, Option.bind_some, if_neg (by simp)]
    exact hend

/-- There is room for two more elements, or the larger array was refused. -/
theorem moreSlots_cases (hv : VecHolds gv σ (tokenSlots ts ++ rest) (some w))
    (hslots : (tokenSlots ts ++ rest).length = slots) (hmin : ts.length + 1 ≤ slots) (hbound : ts.length + 2 ≤ 2 ^ 30) :
    ∃ σ', σ'.mem.heap = σ.mem.heap ∧ σ'.mem.fails <:+ σ.mem.fails ∧ σ'.bufs = σ.bufs ∧
      ((∃ k, moreSlots σ w slots ts.length = some (σ', none, k)) ∧ VecHolds gv σ' (tokenSlots ts ++ rest) (some w) ∧
          true ∈ σ.mem.fails ∨
        ∃ w' k rest', moreSlots σ w slots ts.length = some (σ', some w', k) ∧
          VecHolds gv σ' (tokenSlots ts ++ rest') (some w') ∧ (tokenSlots ts ++ rest').length = k ∧
          ts.length + 2 ≤ k) := by
  unfold moreSlots
  by_cases hlt : slots < ts.length + 2
  · have hint : intResult ((slots : Int) * 2) = some ((slots : Int) * 2) := by
      unfold intResult INT_MIN INT_MAX
      rw [if_pos (by omega)]
    have htoNat : ((slots : Int) * 2).toNat = slots * 2 := by omega
    rw [if_pos hlt, hint, Option.bind_some, htoNat]
    obtain ⟨σ', hheap, hfails, hb, ⟨hreal, hv', htrue⟩ | ⟨w', hreal, hv'⟩⟩ :=
      reallocVec_cases hv (show _ ≤ slots * 2 by rw [hslots]; omega)
    · exact ⟨σ', hheap, hfails, hb, .inl ⟨⟨slots * 2, by rw [hreal]; rfl⟩, hv', htrue⟩⟩
    · rw [hslots, List.append_assoc] at hv'
      refine ⟨σ', hheap, hfails, hb, .inr ⟨w', slots * 2, _, by rw [hreal]; rfl, hv', ?_, by omega⟩⟩
      rw [← List.append_assoc, List.length_append, hslots, List.length_replicate]
      omega
  · rw [if_neg hlt]
    exact ⟨σ, rfl, List.suffix_refl _, rfl, .inr ⟨w, slots, rest, rfl, hv, hslots, Nat.le_of_not_lt hlt⟩⟩

/-- By induction on the turns that are left: `ts` are the pieces that have been cut off, `p` was scanned without a
separator, and the string goes on with `left`. -/
theorem splitLoop_ends (hs : Fixed g s fs) (hinit : s ≠ .noinit) (hsep : Fixed g sep cs) (hne : cs ≠ [])
    (hbound : fs.length < 2 ^ 30) (hscan : Scanned cs fs (ts.map Prod.snd) p left) (ho : Texts g ts σ.mem)
    (hv : VecHolds gv σ (tokenSlots ts ++ rest) (some w)) (hslots : (tokenSlots ts ++ rest).length = slots)
    (hmin : ts.length + 1 ≤ slots) (hstart : start + (p ++ left).length = fs.length) (hts : ts.length ≤ start)
    (hj : j = start + p.length) (hfuel : fs.length < j + fuel) :
    SplitEnd g gv σ cs fs (splitLoop s fs.length sep cs.length fuel σ w slots ts.length start j) := by
  induction fuel generalizing σ ts p left w rest slots start j with
  | zero =>
    rw [List.length_append] at hstart
    omega
  | succ fuel ih =>
    have hpos := List.length_pos_iff.mpr hne
    rw [List.length_append] at hstart
    have hlen1 := congrArg List.length hscan.whole
    rw [List.length_append, List.length_append] at hlen1
    -- where the scan is in the string
    have hdropStart : fs.drop start = p ++ left := by
      have hcut : ((ts.map Prod.snd).flatMap (· ++ cs)).length = start := by omega
      rw [hscan.whole, ← hcut, List.drop_left]
    have hdropj : fs.drop j = left := by rw [hj, ← List.drop_drop, hdropStart, List.drop_left]
    have htoken : ∀ k, Fixed g (s.add start) ((p ++ left).take k) := by
      intro k
      have hfixed := (hs.drop (show start ≤ fs.length by omega)).take k
      rwa [hdropStart] at hfixed
    unfold splitLoop
    by_cases hmore : j + cs.length ≤ fs.length
    · rw [if_pos hmore]
      obtain ⟨σ1, hheap1, hfails1, hb1, hroom⟩ := moreSlots_cases hv hslots hmin (by omega)
      have ho1 : Texts g ts σ1.mem := by
        unfold Texts
        rw [hheap1]
        exact ho
      rcases hroom with ⟨⟨k, hroom⟩, hv1, htrue⟩ | ⟨w1, slots1, rest1, hroom, hv1, hslots1, hmin1⟩
      · obtain ⟨σ2, hclean, hg, hgv, hf2, hb2⟩ := splitCleanup_texts ho1 hv1
        refine ⟨σ2, hb2.trans hb1, hf2 ▸ hfails1, .inl ⟨?_, hg, hgv, htrue⟩⟩
        rw [hroom, Option.bind_some]
        exact hclean
      · obtain ⟨hit, hhit, hiff⟩ := hasSep_eq hs hsep ho1 hmore hne
        rw [hdropj] at hiff
        rw [hroom, Option.bind_some]
        dsimp only
        rw [hhit, Option.bind_some]
        cases hcase : hit with
        | true =>
          rw [hcase] at hiff
          obtain ⟨left', rfl⟩ := hiff.mp rfl
          rw [List.length_append] at hstart hlen1
          rw [if_pos rfl]
          have hplen : j - start = p.length := by omega
          have hpiece : Fixed g (s.add start) p := by
            have hfixed := htoken p.length
            rwa [List.take_left] at hfixed
          obtain ⟨slot, rest2, rfl⟩ : ∃ slot rest2, rest1 = slot :: rest2 := by
            refine List.exists_cons_of_length_pos ?_
            rw [List.length_append, tokenSlots, List.length_map] at hslots1
            omega
          rw [hplen]
          refine (putPiece_ends hpiece hinit (by omega) ho1 hv1 fun σ2 q hfails2 hb2 ho2 hv2 => ?_).after hfails1 hb1
          have hscan2 : Scanned cs fs ((ts ++ [(q, p)]).map Prod.snd) [] left' := by
            rw [List.map_append]
            exact hscan.hit
          have hlen2 : (ts ++ [(q, p)]).length = ts.length + 1 := by rw [List.length_append, List.length_singleton]
          have hslots2 : (tokenSlots (ts ++ [(q, p)]) ++ rest2).length = slots1 := by
            rw [← hslots1]
            simp [tokenSlots]
          have hstart2 : j + cs.length + ([] ++ left').length = fs.length := by
            rw [List.nil_append]
            omega
          have hnext := ih hscan2 ho2 hv2 hslots2 (by rw [hlen2]; exact hmin1) hstart2 (by rw [hlen2]; omega) rfl
            (by omega)
          rw [hlen2] at hnext
          exact hnext
        | false =>
          rw [hcase] at hiff
          have hno : ¬ cs <+: left := fun h => by cases hiff.mpr h
          obtain ⟨c, left', rfl⟩ : ∃ c left', left = c :: left' :=
            List.exists_cons_of_length_pos (by omega)
          rw [if_neg (by decide)]
          rw [List.length_cons] at hstart
          refine SplitEnd.after (ih (hscan.skip hno) ho1 hv1 hslots1 (by omega) ?_ hts ?_ (by omega)) hfails1 hb1
          · rw [List.length_append, List.length_append, List.length_singleton]
            omega
          · rw [List.length_append, List.length_singleton]
            omega
    · rw [if_neg hmore]
      have hleft : fs.length - start = (p ++ left).length := by
        rw [List.length_append]
        omega
      have hpiece : Fixed g (s.add start) (p ++ left) := by
        have hfixed := htoken (p ++ left).length
        rwa [List.take_length] at hfixed
      obtain ⟨slot, rest2, rfl⟩ : ∃ slot rest2, rest = slot :: rest2 := by
        refine List.exists_cons_of_length_pos ?_
        rw [List.length_append, tokenSlots, List.length_map] at hslots
        omega
      rw [hleft]
      refine putPiece_ends hpiece hinit (by rw [List.length_append]; omega) ho hv fun σ2 q hfails2 hb2 ho2 hv2 => ?_
      refine ⟨σ2, rfl, List.suffix_refl _, .inr ⟨ts ++ [(q, p ++ left)], w, rest2, by simp, ?_, ho2, hv2⟩⟩
      rw [List.map_append]
      exact hscan.finish (by omega)

/-- What `sdssplitlen` makes of a string: no tokens at all of an empty one. -/
def IsSplit (cs fs : List UInt8) (toks : List (List UInt8)) : Prop := if fs = [] then toks = [] else Pieces cs fs toks

/-- As `SplitEnd`, of a string that may be empty; then there is no token, and the count is not written for a failed
allocation. -/
def Splits (σ : Space) (cs fs : List UInt8) (r : Option (Space × Option Ptr × Option Nat)) : Prop :=
  ∃ σ', σ'.bufs = σ.bufs ∧ σ'.mem.fails <:+ σ.mem.fails ∧
    ((∃ count, r = some (σ', none, count)) ∧ σ'.mem.heap.get = σ.mem.heap.get ∧ σ'.vecs.get = σ.vecs.get ∧
        true ∈ σ.mem.fails ∨
      ∃ ts w rest, r = some (σ', some w, some ts.length) ∧ IsSplit cs fs (ts.map Prod.snd) ∧
        Texts σ.mem.heap.get ts σ'.mem ∧ VecHolds σ.vecs.get σ' (tokenSlots ts ++ rest) (some w))

/-- The scan starts with an array of five slots. -/
theorem sdssplitlen_splits (hs : Fixed σ.mem.heap.get s fs) (hinit : s ≠ .noinit) (hsep : Fixed σ.mem.heap.get sep cs)
    (hne : cs ≠ []) (hbound : fs.length < 2 ^ 30) : Splits σ cs fs (sdssplitlen σ s fs.length sep cs.length) := by
  have hpos := List.length_pos_iff.mpr hne
  have hcond : ¬ ((cs.length : Int) < 1 ∨ (fs.length : Int) < 0) := by omega
  have hnull : VecHolds σ.vecs.get σ [] none := ⟨rfl, rfl⟩
  unfold sdssplitlen
  rw [if_neg hcond]
  obtain ⟨σ1, hheap, hfails, hb, ⟨hreal, hv, htrue⟩ | ⟨w, hreal, hv⟩⟩ := reallocVec_cases hnull (Nat.zero_le 5)
  · rw [hreal]
    exact ⟨σ1, hb, hfails, .inl ⟨⟨none, rfl⟩, by rw [hheap], hv.2, htrue⟩⟩
  · rw [hreal, Option.bind_some]
    dsimp only
    have ho : Texts σ.mem.heap.get [] σ1.mem := by
      unfold Texts
      rw [hheap]
      exact .nil
    by_cases hempty : fs = []
    · have hlen : ((fs.length : Nat) : Int) = 0 := by rw [hempty]; rfl
      refine ⟨σ1, hb, hfails, .inr ⟨[], w, List.replicate 5 none, if_pos hlen, ?_, ho, hv⟩⟩
      unfold IsSplit
      rw [if_pos hempty]
      rfl
    · have hlen : ¬ ((fs.length : Nat) : Int) = 0 := by
        have hfpos := List.length_pos_iff.mpr hempty
        omega
      rw [if_neg hlen, Int.toNat_natCast, Int.toNat_natCast]
      have hslots : (tokenSlots [] ++ List.replicate 5 none).length = 5 := rfl
      obtain ⟨σ', hb', hf', hend⟩ := (splitLoop_ends hs hinit hsep hne hbound .init ho hv hslots
        (by decide) (by simp) (Nat.le_refl 0) rfl (show fs.length < 0 + (fs.length + 1) by omega)).after hfails hb
      refine ⟨σ', hb', hf', ?_⟩
      rcases hend with ⟨hr, hg, hgv, htrue⟩ | ⟨ts, w', rest, hr, hpieces, ho', hv'⟩
      · exact .inl ⟨⟨some 0, hr⟩, hg, hgv, htrue⟩
      · refine .inr ⟨ts, w', rest, hr, ?_, ho', hv'⟩
        unfold IsSplit
        rwa [if_neg hempty]

/-- **sdssplitlen** under any allocator: the tokens are the pieces of the string, each in a string of its own; or an
allocation failed, NULL is returned, and nothing is left of what was allocated. -/
theorem sdssplitlen_pieces (hs : Fixed σ.mem.heap.get s fs) (hinit : s ≠ .noinit) (hsep : Fixed σ.mem.heap.get sep cs)
    (hne : cs ≠ []) (hbound : fs.length < 2 ^ 30) : ∃ σ', σ'.bufs = σ.bufs ∧ σ'.mem.fails <:+ σ.mem.fails ∧
      ((∃ count, sdssplitlen σ s fs.length sep cs.length = some (σ', none, count)) ∧
          σ'.mem.heap.get = σ.mem.heap.get ∧ σ'.vecs.get = σ.vecs.get ∧ true ∈ σ.mem.fails ∨
        ∃ ts w rest, sdssplitlen σ s fs.length sep cs.length = some (σ', some w, some ts.length) ∧
          IsSplit cs fs (ts.map Prod.snd) ∧ Texts σ.mem.heap.get ts σ'.mem ∧
          VecHolds σ.vecs.get σ' (tokenSlots ts ++ rest) (some w)) :=
  sdssplitlen_splits hs hinit hsep hne hbound

/-- `"a,b"`, when the second string is not granted. -/
theorem sdssplitlen_pieces_refused : ∃ σ', σ'.bufs = ⟨[]⟩ ∧ σ'.mem.fails <:+ [false, false, true] ∧
    ((∃ count, sdssplitlen ⟨⟨⟨[]⟩, [false, false, true]⟩, ⟨[]⟩, ⟨[]⟩⟩ (.ext ([97, 44, 98].map some ++ [])) 3
          (.ext ([44].map some ++ [])) 1 = some (σ', none, count)) ∧
        σ'.mem.heap.get = (⟨[]⟩ : Heap Sdshdr).get ∧ σ'.vecs.get = (⟨[]⟩ : Heap (List (Option Ptr))).get ∧
        true ∈ [false, false, true] ∨
      ∃ ts w rest, sdssplitlen ⟨⟨⟨[]⟩, [false, false, true]⟩, ⟨[]⟩, ⟨[]⟩⟩ (.ext ([97, 44, 98].map some ++ [])) 3
          (.ext ([44].map some ++ [])) 1 = some (σ', some w, some ts.length) ∧
        IsSplit [44] [97, 44, 98] (ts.map Prod.snd) ∧ Texts (⟨[]⟩ : Heap Sdshdr).get ts σ'.mem ∧
        VecHolds (⟨[]⟩ : Heap (List (Option Ptr))).get σ' (tokenSlots ts ++ rest) (some w)) :=
  sdssplitlen_pieces (σ := ⟨⟨⟨[]⟩, [false, false, true]⟩, ⟨[]⟩, ⟨[]⟩⟩) (.ext [97, 44, 98] []) (by decide) (.ext [44] [])
    (by decide) (by decide)

end Scan

/-! ## Joining -/

/-- A step that appends `ds` to the string while the arrays are `vecs`. -/
def AddsBeside (vecs : Heap (List (Option Ptr))) (g : Nat → Option Sdshdr) (l : List (Ptr × List UInt8))
    (f : Space → Option Ptr → Option (Space × Option Ptr)) (ds : List UInt8) : Prop :=
  ∀ σ p cs, σ.vecs = vecs → σ.mem.fails = [] → Texts g ((p, cs) :: l) σ.mem → Roomy cs.length ds.length →
    ∃ σ' q, f σ (some p) = some (σ', some q) ∧ Keeps σ σ' ∧ Texts g ((q, cs ++ ds) :: l) σ'.mem

section Join

variable {gv : Nat → Option (List (Option Ptr))} {g : Nat → Option Sdshdr} {σ : Space} {rest : List (Option Ptr)}
  {w q j n : Nat} {l ts : List (Ptr × List UInt8)} {s sep t : Src} {fs cs bs ds : List UInt8} {toks : List (List UInt8)}
  {vecs : Heap (List (Option Ptr))} {f catSep : Space → Option Ptr → Option (Space × Option Ptr)}
  {cat : Nat → Space → Option Ptr → Option (Space × Option Ptr)} {argv : List Src}

theorem Adds.beside (hf : Adds g l f ds) (vecs : Heap (List (Option Ptr))) : AddsBeside vecs g l f ds :=
  fun σ p cs _ => hf σ p cs

/-- A C string that is not in a string of the list. -/
theorem adds_sdscat (ht : CLine g t ds) : Adds g l (fun σ s => σ.sdscat s t) ds := by
  intro σ p cs hcalm ho hroomy
  obtain ⟨rest, hbytes⟩ := ht.fixed.bytes
  have hlen : t.strlen σ.mem = some ds.length := by
    unfold Src.strlen
    rw [hbytes _ _ ho, Option.bind_some, List.map_append, List.append_assoc]
    exact strlenOf_text ht.nonzero rest
  have hread : Readable g l t ds := by
    have htake := (ht.fixed.take ds.length).readable (l := l)
    rwa [List.take_left' rfl] at htake
  obtain ⟨σ', q, hr, hkeeps, ho'⟩ := adds_sdscatlen hread σ p cs hcalm ho hroomy
  refine ⟨σ', q, ?_, hkeeps, ho'⟩
  show (t.strlen σ.mem).bind _ = _
  rw [hlen]
  exact hr

/-- The next string of the array is appended. -/
theorem adds_sdscatsds (hv : VecHolds gv σ (tokenSlots ts ++ rest) (some w)) (hj : j < ts.length) :
    AddsBeside σ.vecs g ts (fun σ s => (σ.readVec w j).bind fun t => σ.sdscatsds s t) (ts[j].2) := by
  intro σ' q bs hvecs hcalm ho hroomy
  have ht : (ts[j].1, ts[j].2) ∈ ts := List.getElem_mem hj
  obtain ⟨m, q', hr, hf, ho'⟩ := (sdscatsds_text ho ht hroomy).calm hcalm
  refine ⟨{ σ' with mem := m }, q', ?_, ⟨hf, rfl, rfl⟩, ho'⟩
  dsimp only
  rw [readVec_some (hv.congr hvecs) hj, Option.bind_some]
  show (Slice.sdscatsds σ'.mem q ts[j].1).map _ = _
  rw [hr]
  rfl

/-- By induction on the strings that are left. -/
theorem adds_joinLoop (hsep : Adds g l catSep cs) (hcat : ∀ j (hj : j < toks.length), AddsBeside vecs g l (cat j) toks[j])
    (hn : j + n = toks.length) : AddsBeside vecs g l (fun σ s => joinLoop toks.length cat catSep n σ s j)
      (cs.intercalate (toks.drop j)) := by
  induction n generalizing j with
  | zero =>
    rw [List.drop_eq_nil_of_le (by omega), List.intercalate_nil]
    exact Adds.nil.beside vecs
  | succ n ih =>
    intro σ q bs hvecs hcalm ho hroomy
    have hj : j < toks.length := by omega
    rw [List.drop_eq_getElem_cons hj] at hroomy ⊢
    unfold joinLoop
    by_cases hlast : j = toks.length - 1
    · -- the last one: no separator follows
      rw [List.drop_eq_nil_of_le (show toks.length ≤ j + 1 by omega), List.intercalate_singleton] at hroomy ⊢
      obtain ⟨σ1, q1, h1, hk1, ho1⟩ := hcat j hj σ q bs hvecs hcalm ho hroomy
      obtain rfl : n = 0 := by omega
      refine ⟨σ1, q1, ?_, hk1, ho1⟩
      dsimp only
      rw [h1, Option.bind_some]
      dsimp only
      rw [if_neg (not_not.mpr hlast)]
      rfl
    · obtain ⟨t', toks', hrest⟩ : ∃ t' toks', toks.drop (j + 1) = t' :: toks' := by
        refine List.exists_cons_of_length_pos ?_
        rw [List.length_drop]
        omega
      rw [hrest, List.intercalate_cons_cons, ← hrest] at hroomy ⊢
      rw [List.append_assoc, List.length_append, List.length_append] at hroomy
      obtain ⟨hroomy1, hroomy'⟩ := hroomy.split
      obtain ⟨σ1, q1, h1, hk1, ho1⟩ := hcat j hj σ q bs hvecs hcalm ho hroomy1
      rw [← List.length_append] at hroomy'
      obtain ⟨hroomy2, hroomy3⟩ := hroomy'.split
      obtain ⟨σ2, q2, h2, hk2, ho2⟩ := hsep σ1 q1 _ hk1.fails ho1 hroomy2
      rw [← List.length_append] at hroomy3
      obtain ⟨σ3, q3, h3, hk3, ho3⟩ :=
        ih (by omega) σ2 q2 _ ((hk2.vecs.trans hk1.vecs).trans hvecs) hk2.fails ho2 hroomy3
      refine ⟨σ3, q3, ?_, (hk1.trans hk2).trans hk3, ?_⟩
      · dsimp only
        rw [h1, Option.bind_some]
        dsimp only
        rw [if_pos hlast, h2, Option.bind_some]
        exact h3
      · rw [List.append_assoc, List.append_assoc] at ho3
        rw [List.append_assoc]
        exact ho3

/-- A join begins with an empty string. -/
theorem join_text (hsep : Adds g l catSep cs) (hcat : ∀ j (hj : j < toks.length), AddsBeside σ.vecs g l (cat j) toks[j])
    (hcalm : σ.mem.fails = []) (ho : Texts g l σ.mem) (hroomy : Roomy 0 (cs.intercalate toks).length) :
    ∃ σ' q, ((sdsempty σ.mem).bind fun (m, join) =>
        joinLoop toks.length cat catSep toks.length { σ with mem := m } join 0) = some (σ', some q) ∧ Keeps σ σ' ∧
      Texts g ((q, cs.intercalate toks) :: l) σ'.mem := by
  obtain ⟨m, q, hempty, hf, ho1⟩ := (sdsempty_text ho).calm hcalm
  obtain ⟨σ', q', hloop, hk, ho'⟩ :=
    adds_joinLoop hsep hcat (Nat.zero_add _) { σ with mem := m } q [] rfl hf ho1 hroomy
  refine ⟨σ', q', ?_, ⟨hk.fails, hk.bufs, hk.vecs⟩, ho'⟩
  rw [hempty]
  exact hloop

/-- **sdsjoin** joins C strings. -/
theorem sdsjoin_text (hsep : CLine g sep cs) (hargs : argv.Forall₂ (CLine g) toks) (hcalm : σ.mem.fails = [])
    (ho : Texts g l σ.mem) (hroomy : Roomy 0 (cs.intercalate toks).length) :
    ∃ σ' q, sdsjoin σ argv toks.length sep = some (σ', some q) ∧ Keeps σ σ' ∧
      Texts g ((q, cs.intercalate toks) :: l) σ'.mem := by
  refine join_text (adds_sdscat hsep) (fun j hj => ?_) hcalm ho hroomy
  have hj' : j < argv.length := by rwa [hargs.length_eq]
  have hline := adds_sdscat (l := l) (hargs.get hj' hj)
  rw [List.getElem?_eq_getElem hj']
  exact hline.beside _

/-- **sdsjoinsds** joins the strings of an array, which stay as they are. -/
theorem sdsjoinsds_text (hsep : Readable g ts sep cs) (hcalm : σ.mem.fails = []) (ho : Texts g ts σ.mem)
    (hv : VecHolds gv σ (tokenSlots ts ++ rest) (some w)) (hroomy : Roomy 0 (cs.intercalate (ts.map Prod.snd)).length) :
    ∃ σ' q, sdsjoinsds σ w ts.length sep cs.length = some (σ', some q) ∧ Keeps σ σ' ∧
      Texts g ((q, cs.intercalate (ts.map Prod.snd)) :: ts) σ'.mem := by
  have hcat : ∀ j (hj : j < (ts.map Prod.snd).length), AddsBeside σ.vecs g ts
      (fun σ s => (σ.readVec w j).bind fun t => σ.sdscatsds s t) (ts.map Prod.snd)[j] := by
    intro j hj
    rw [List.getElem_map]
    exact adds_sdscatsds hv (by rwa [List.length_map] at hj)
  have hjoin := join_text (adds_sdscatlen hsep) hcat hcalm ho hroomy
  rw [List.length_map] at hjoin
  exact hjoin

theorem intercalate_of_split {toks : List (List UInt8)} (h : IsSplit cs fs toks) : cs.intercalate toks = fs := by
  unfold IsSplit at h
  split_ifs at h with hempty
  · rw [h, hempty]
    rfl
  · exact (pieces_iff.mp h).2

/-- **Joining what was split** gives the string back, and once the array is freed nothing but the joined string is
left. -/
theorem join_of_split (hs : Fixed σ.mem.heap.get s fs) (hinit : s ≠ .noinit) (hsep : Fixed σ.mem.heap.get sep cs)
    (hne : cs ≠ []) (hbound : fs.length < 2 ^ 30) (hcalm : σ.mem.fails = []) :
    ∃ σ1 w n σ2 q σ3, sdssplitlen σ s fs.length sep cs.length = some (σ1, some w, some n) ∧
      sdsjoinsds σ1 w n sep cs.length = some (σ2, some q) ∧ sdsfreesplitres σ2 (some w) n = some σ3 ∧
      Texts σ.mem.heap.get [(q, fs)] σ3.mem ∧ σ3.vecs.get = σ.vecs.get := by
  obtain ⟨σ1, -, hfails, ⟨-, -, -, htrue⟩ | ⟨ts, w, rest, hsplit, hpieces, ho, hv⟩⟩ :=
    sdssplitlen_splits hs hinit hsep hne hbound
  · rw [hcalm] at htrue
    cases htrue
  rw [hcalm] at hfails
  have hroomy : Roomy 0 (cs.intercalate (ts.map Prod.snd)).length := by
    rw [intercalate_of_split hpieces]
    unfold Roomy SDS_MAX_PREALLOC
    omega
  obtain ⟨σ2, q, hjoin, hkeeps, ho2⟩ := sdsjoinsds_text hsep.readable (List.suffix_nil.mp hfails) ho hv hroomy
  rw [intercalate_of_split hpieces] at ho2
  have hlast : Texts σ.mem.heap.get (ts ++ [(q, fs)]) σ2.mem := Owns.perm ho2 (List.perm_append_singleton _ _).symm
  obtain ⟨σ3, hfree, ho3, hgv, -⟩ := sdsfreesplitres_texts hlast (hv.congr hkeeps.vecs)
  exact ⟨σ1, w, ts.length, σ2, q, σ3, hsplit, hjoin, hfree, ho3, hgv⟩

/-- `",a"` is split at its comma and joined again. -/
theorem join_of_split_comma : ∃ σ1 w n σ2 q σ3,
    sdssplitlen ⟨⟨⟨[]⟩, []⟩, ⟨[]⟩, ⟨[]⟩⟩ (.ext ([44, 97].map some ++ [])) 2 (.ext ([44].map some ++ [])) 1 =
      some (σ1, some w, some n) ∧
    sdsjoinsds σ1 w n (.ext ([44].map some ++ [])) 1 = some (σ2, some q) ∧
    sdsfreesplitres σ2 (some w) n = some σ3 ∧ Texts (⟨[]⟩ : Heap Sdshdr).get [(q, [44, 97])] σ3.mem ∧
    σ3.vecs.get = (⟨[]⟩ : Heap (List (Option Ptr))).get :=
  join_of_split (σ := ⟨⟨⟨[]⟩, []⟩, ⟨[]⟩, ⟨[]⟩⟩) (.ext [44, 97] []) (by decide) (.ext [44] []) (by decide) (by decide) rfl

/-- **Splitting what was joined** gives the same strings exactly when the joined string is not empty, no separator
starts in a string or across its end, and none is in the last one. -/
theorem split_of_join (arr : List Byte) (hne : cs ≠ []) (hcalm : σ.mem.fails = []) (ho : Texts g ts σ.mem)
    (hv : VecHolds gv σ (tokenSlots ts ++ rest) (some w)) (hbound : (cs.intercalate (ts.map Prod.snd)).length < 2 ^ 30) :
    ∃ σ1 q n σ2 w' ts', sdsjoinsds σ w ts.length (.ext (cs.map some ++ arr)) cs.length = some (σ1, some q) ∧
      n = (cs.intercalate (ts.map Prod.snd)).length ∧
      sdssplitlen σ1 (.sds q 0) n (.ext (cs.map some ++ arr)) cs.length = some (σ2, some w', some ts'.length) ∧
      Texts σ1.mem.heap.get ts' σ2.mem ∧
      (ts'.map Prod.snd = ts.map Prod.snd ↔
        if cs.intercalate (ts.map Prod.snd) = [] then ts = [] else Clean cs (ts.map Prod.snd)) := by
  have hroomy : Roomy 0 (cs.intercalate (ts.map Prod.snd)).length := by
    unfold Roomy SDS_MAX_PREALLOC
    omega
  obtain ⟨σ1, q, hjoin, hkeeps, ho1⟩ := sdsjoinsds_text (.ext cs arr) hcalm ho hv hroomy
  obtain ⟨h, hq, htext, -⟩ := Owns.head ho1
  have hs := (Fixed.sds hq htext).take (cs.intercalate (ts.map Prod.snd)).length
  rw [List.take_left'  rfl] at hs
  obtain ⟨σ2, -, -, ⟨-, -, -, htrue⟩ | ⟨ts', w', rest', hsplit, hpieces, ho', -⟩⟩ :=
    sdssplitlen_splits hs (by intro h; cases h) (.ext cs arr) hne hbound
  · rw [hkeeps.fails] at htrue
    cases htrue
  refine ⟨σ1, q, _, σ2, w', ts', hjoin, rfl, hsplit, ho', ?_⟩
  unfold IsSplit at hpieces
  split_ifs at hpieces ⊢ with hempty
  · rw [hpieces]
    exact ⟨fun h => List.map_eq_nil_iff.mp h.symm, fun h => by rw [h]; rfl⟩
  · constructor
    · intro heq
      rw [heq] at hpieces
      exact (pieces_iff.mp hpieces).1
    · intro hclean
      exact hpieces.unique (pieces_iff.mpr ⟨hclean, rfl⟩)

/-- An array with one string, which is the separator. -/
theorem split_of_join_comma : ∃ σ1 q n σ2 w' ts',
    sdsjoinsds ⟨⟨Heap.alloc ⟨[]⟩ ⟨.type8, 1, 1, [some 44, some 0]⟩, []⟩, ⟨[]⟩, Heap.alloc ⟨[]⟩ [some 0]⟩ 0 1
      (.ext ([44].map some ++ [])) 1 = some (σ1, some q) ∧ n = (List.intercalate [44] [([44] : List UInt8)]).length ∧
    sdssplitlen σ1 (.sds q 0) n (.ext ([44].map some ++ [])) 1 = some (σ2, some w', some ts'.length) ∧
    Texts σ1.mem.heap.get ts' σ2.mem ∧
    (ts'.map Prod.snd = [[44]] ↔ if List.intercalate [44] [([44] : List UInt8)] = [] then
      [((0 : Ptr), ([44] : List UInt8))] = [] else Clean [44] [([44] : List UInt8)]) := by
  have htext : Text ⟨.type8, 1, 1, [some 44, some 0]⟩ [44] :=
    ⟨⟨by decide, by decide, by decide, by decide⟩, rfl, rfl⟩
  have hv : VecHolds (⟨[]⟩ : Heap (List (Option Ptr))).get
      ⟨(oneString ⟨.type8, 1, 1, [some 44, some 0]⟩ []).mem, ⟨[]⟩, Heap.alloc ⟨[]⟩ [some 0]⟩
      (tokenSlots [(0, [44])] ++ []) (some 0) := (Owns.nil (R := Eq)).alloc rfl rfl Heap.get_alloc
  have hne : ([44] : List UInt8) ≠ [] := by decide
  have hbound : ([44].intercalate ([((0 : Ptr), ([44] : List UInt8))].map Prod.snd)).length < 2 ^ 30 := by decide
  exact split_of_join (σ := ⟨(oneString ⟨.type8, 1, 1, [some 44, some 0]⟩ []).mem, ⟨[]⟩, Heap.alloc ⟨[]⟩ [some 0]⟩) []
    hne rfl (texts_oneString htext []) hv hbound

end Join

end BeanRaft.Slice
