import BeanRaft.Slice.Room

/-!
# BeanRaft.Slice.Variables — a client of the strings

A client with any number of variables that hold strings, and the functions of `sds.cpp` as the steps of a transition
system.  As the comments of the functions ask, the client takes the pointer that a call returns, and keeps its own when
that is NULL.

* `InPlace`, `Growing`, `Create`: the calls, each with the bytes that it is to leave and the sizes that it needs.
* `variables_hold`: over every run, whatever the allocator refuses, the memory is exactly the strings of the variables,
  and each holds the bytes that the calls were to leave.
-/

namespace BeanRaft.Slice

open CInt Lib Lts

/-! ## The calls -/

/-- A change of a string that stays at its place. -/
inductive InPlace
  | store (i : Nat) (c : UInt8)
  | clear
  | updatelen
  | incrLen (incr : Int64)
  | trim (cset : List UInt8)
  | range (start stop : Int64)
  | tolower
  | toupper
  | mapchars (src dst : List UInt8)
  deriving DecidableEq, Repr

/-- A change for which the string may be moved. -/
inductive Growing
  | catlen (bs : List UInt8)
  | cat (bs : List UInt8)
  | catsds (j : Nat)
  | cpylen (bs : List UInt8)
  | cpy (bs : List UInt8)
  | growzero (len : Nat)
  | makeRoom (addlen : Nat)
  | removeFreeSpace
  | readInto (size : Nat) (bs : List UInt8)
  deriving DecidableEq, Repr

/-- A new string. -/
inductive Create
  | empty
  | newlen (bs : List UInt8)
  | new (bs : List UInt8)
  | dup (j : Nat)
  | fromlonglong (value : Int64)
  deriving DecidableEq, Repr

namespace InPlace

def run (e : InPlace) (m : Mem) (s : Ptr) : Option Mem :=
  match e with
  | store i c => m.modify s fun h => h.write i [some c]
  | clear => sdsclear m s
  | updatelen => sdsupdatelen m s
  | incrLen incr => sdsIncrLen m s incr
  | trim cset => sdstrim m s (cstring cset)
  | range start stop => sdsrange m s start stop
  | tolower => sdstolower m s
  | toupper => sdstoupper m s
  | mapchars src dst => sdsmapchars m s (.ext (src.map some)) (.ext (dst.map some)) src.length

/-- The bytes afterwards. -/
def spec (e : InPlace) (cs : List UInt8) : List UInt8 :=
  match e with
  | store i c => cs.set i c
  | clear => []
  | updatelen => cstr cs
  | incrLen incr => cs.take (cs.length + incr.toInt).toNat
  | trim cset => Slice.trim cset cs
  | range start stop => Slice.range cs start.toInt stop.toInt
  | tolower => cs.map Slice.tolower
  | toupper => cs.map Slice.toupper
  | mapchars src dst => cs.map (mapped src dst)

/-- A store is inside the string, and `sdsIncrLen` takes bytes away: it adds what was read into the free space in
`Growing.readInto`.  The two sets of `sdsmapchars` have one length. -/
def Ok (e : InPlace) (cs : List UInt8) : Prop :=
  match e with
  | store i _ => i < cs.length
  | incrLen incr => incr.toInt ≠ -2 ^ 63 ∧ incr.toInt < 0 ∧ 0 ≤ cs.length + incr.toInt
  | range start stop => cs.length < 2 ^ 63 ∧ RangeFits cs start.toInt stop.toInt
  | mapchars src dst => src.length = dst.length
  | _ => True

end InPlace

namespace Growing

/-- `ptrs` are the client's variables. -/
def run (a : Growing) (ptrs : List Ptr) (m : Mem) (s : Ptr) : Option (Mem × Option Ptr) :=
  match a with
  | catlen bs => sdscatlen m s (.ext (bs.map some)) bs.length
  | cat bs => sdscat m s (cstring bs)
  | catsds j => ptrs[j]?.bind fun t => sdscatsds m s t
  | cpylen bs => sdscpylen m s (.ext (bs.map some)) bs.length
  | cpy bs => sdscpy m s (cstring bs)
  | growzero len => sdsgrowzero m s len
  | makeRoom addlen => sdsMakeRoomFor m s addlen
  | removeFreeSpace => sdsRemoveFreeSpace m s
  | readInto size bs => Slice.readInto m s size bs

/-- The bytes afterwards; `texts` are those of the variables. -/
def spec (a : Growing) (texts : List (List UInt8)) (cs : List UInt8) : List UInt8 :=
  match a with
  | catlen bs => cs ++ bs
  | cat bs => cs ++ cstr bs
  | catsds j => cs ++ texts[j]?.getD []
  | cpylen bs => bs
  | cpy bs => cstr bs
  | growzero len => cs ++ List.replicate (len - cs.length) 0
  | makeRoom _ => cs
  | removeFreeSpace => cs
  | readInto _ bs => cs ++ bs

/-- A string is not appended to itself, and no size wraps. -/
def Ok (a : Growing) (texts : List (List UInt8)) (i : Nat) (cs : List UInt8) : Prop :=
  match a with
  | catlen bs => Roomy cs.length bs.length
  | cat bs => Roomy cs.length bs.length
  | catsds j => j ≠ i ∧ j < texts.length ∧ Roomy cs.length (texts[j]?.getD []).length
  | cpylen bs => Roomy cs.length bs.length
  | cpy bs => Roomy cs.length bs.length
  | growzero len => Roomy cs.length (len - cs.length)
  | makeRoom addlen => Roomy cs.length addlen
  | removeFreeSpace => cs.length + 18 < 2 ^ 64
  | readInto size bs => Roomy cs.length size ∧ bs ≠ [] ∧ bs.length ≤ size ∧ bs.length < 2 ^ 63

end Growing

namespace Create

def run (c : Create) (ptrs : List Ptr) (m : Mem) : Option (Mem × Option Ptr) :=
  match c with
  | empty => sdsempty m
  | newlen bs => sdsnewlen m (.ext (bs.map some)) bs.length
  | new bs => sdsnew m (cstring bs)
  | dup j => ptrs[j]?.bind fun s => sdsdup m s
  | fromlonglong value => sdsfromlonglong m value

def spec (c : Create) (texts : List (List UInt8)) : List UInt8 :=
  match c with
  | empty => []
  | newlen bs => bs
  | new bs => cstr bs
  | dup j => texts[j]?.getD []
  | fromlonglong value => decimal value.toInt

/-- No size wraps, and `sdsll2str` does not negate the least value. -/
def Ok (c : Create) (texts : List (List UInt8)) : Prop :=
  match c with
  | newlen bs => bs.length + 18 < 2 ^ 64
  | new bs => bs.length + 18 < 2 ^ 64
  | dup j => j < texts.length ∧ (texts[j]?.getD []).length + 18 < 2 ^ 64
  | fromlonglong value => value.toInt ≠ -2 ^ 63
  | empty => True

end Create

/-! ## The system -/

inductive VarAct
  | create (c : Create)
  | edit (i : Nat) (e : InPlace)
  | grow (i : Nat) (a : Growing)
  | free (i : Nat)
  deriving DecidableEq, Repr

/-- The memory, and the variables, each with its pointer and the bytes that it is to hold. -/
inductive VarState
  | running (m : Mem) (vars : List (Ptr × List UInt8))
  | undefined

/-- The variables are left alone when NULL is returned. -/
def VarState.after (vars : List (Ptr × List UInt8)) (k : Ptr → List (Ptr × List UInt8)) :
    Option (Mem × Option Ptr) → VarState
  | none => .undefined
  | some (m, none) => .running m vars
  | some (m, some q) => .running m (k q)

def VarState.inPlace (vars : List (Ptr × List UInt8)) : Option Mem → VarState
  | none => .undefined
  | some m => .running m vars

def VarState.step : VarState → VarAct → Option VarState
  | .undefined, _ => none
  | .running m vars, .create c =>
    some (.after vars (fun q => (q, c.spec (vars.map Prod.snd)) :: vars) (c.run (vars.map Prod.fst) m))
  | .running m vars, .edit i e =>
    vars[i]?.map fun (s, cs) => .inPlace (vars.set i (s, e.spec cs)) (e.run m s)
  | .running m vars, .grow i a =>
    vars[i]?.map fun (s, cs) =>
      .after vars (fun q => vars.set i (q, a.spec (vars.map Prod.snd) cs)) (a.run (vars.map Prod.fst) m s)
  | .running m vars, .free i => vars[i]?.map fun (s, _) => .inPlace (vars.eraseIdx i) (m.sdsfree (some s))

/-- No strings, and an allocator that refuses what `fails` says. -/
def VarState.start (fails : List Bool) : VarState := .running ⟨⟨[]⟩, fails⟩ []

def strings : System VarState VarAct where
  init s := ∃ fails, s = .start fails
  step := VarState.step

/-- The sizes and arguments of a call. -/
def VarOk : VarState → VarAct → Prop
  | .undefined, _ => True
  | .running _ vars, .create c => c.Ok (vars.map Prod.snd)
  | .running _ vars, .edit i e => ∀ v ∈ vars[i]?, e.Ok v.2
  | .running _ vars, .grow i a => ∀ v ∈ vars[i]?, a.Ok (vars.map Prod.snd) i v.2
  | .running _ _, .free _ => True

instance (e : InPlace) (cs : List UInt8) : Decidable (e.Ok cs) := by
  unfold InPlace.Ok
  cases e <;> infer_instance

instance (a : Growing) (texts : List (List UInt8)) (i : Nat) (cs : List UInt8) : Decidable (a.Ok texts i cs) := by
  unfold Growing.Ok
  cases a <;> infer_instance

instance (c : Create) (texts : List (List UInt8)) : Decidable (c.Ok texts) := by
  unfold Create.Ok
  cases c <;> infer_instance

instance (s : VarState) (act : VarAct) : Decidable (VarOk s act) := by
  unfold VarOk
  cases s <;> cases act <;> infer_instance

/-- What the calls are for: the texts of the variables. -/
def VarAct.spec (texts : List (List UInt8)) : VarAct → List (List UInt8)
  | .create c => c.spec texts :: texts
  | .edit i e => texts.set i (e.spec (texts[i]?.getD []))
  | .grow i a => texts.set i (a.spec texts (texts[i]?.getD []))
  | .free i => texts.eraseIdx i

/-! ## One call -/

section Calls

variable {g : Nat → Option Sdshdr} {l : List (Ptr × List UInt8)} {m : Mem} {cs ds : List UInt8} {p : Ptr}

theorem InPlace.edits (e : InPlace) (hok : e.Ok cs) : Edits g l (fun m s => e.run m s) cs (e.spec cs) := by
  cases e with
  | store i c =>
    refine edits_modify fun h ht => ?_
    exact ht.store hok c
  | clear => exact sdsclear_text
  | updatelen => exact sdsupdatelen_text
  | incrLen incr =>
    obtain ⟨hmin, hneg, hle⟩ := hok
    exact sdsIncrLen_text hmin hneg hle
  | trim cset =>
    have hcset := Fixed.ext (g := g) (cset ++ [0]) []
    rw [List.map_append, List.append_nil] at hcset
    exact sdstrim_text hcset
  | range start stop =>
    obtain ⟨hlen, hfit⟩ := hok
    exact sdsrange_text hlen hfit
  | tolower => exact sdstolower_text
  | toupper => exact sdstoupper_text
  | mapchars src dst =>
    have hsrc := Fixed.ext (g := g) src []
    have hdst := Fixed.ext (g := g) dst []
    rw [List.append_nil] at hsrc hdst
    exact sdsmapchars_text hsrc hdst hok

/-- A C string that a client writes down. -/
theorem cstring_eq (bs : List UInt8) : 0 ∉ cstr bs ∧
    ∃ rest, cstring bs = .ext ((cstr bs).map some ++ some 0 :: rest) := by
  obtain ⟨h0, rest, hsplit⟩ := cstr_split bs []
  exact ⟨h0, rest, congrArg Src.ext hsplit⟩

theorem cstr_length_le (bs : List UInt8) : (cstr bs).length ≤ bs.length := (List.takeWhile_prefix _).length_le

theorem readable_cstring (bs : List UInt8) : Readable g l (cstring bs) (cstr bs) := by
  obtain ⟨-, rest, heq⟩ := cstring_eq bs
  rw [heq]
  exact .ext _ _

theorem strlen_cstring (bs : List UInt8) : (cstring bs).strlen m = some (cstr bs).length := by
  obtain ⟨h0, rest, heq⟩ := cstring_eq bs
  rw [heq]
  exact strlenOf_text h0 rest

/-- A call that may move the string, when the variable `j` of a `catsds` is in the list. -/
theorem Growing.grants {texts : List (List UInt8)} {i : Nat} (a : Growing) (ptrs : List Ptr) (hok : a.Ok texts i cs)
    (ho : Texts g ((p, cs) :: l) m)
    (hvars : ∀ j, j ≠ i → j < texts.length → ∃ q, ptrs[j]? = some q ∧ (q, texts[j]?.getD []) ∈ l) :
    Grants m (a.run ptrs m p) fun m' q => Texts g ((q, a.spec texts cs) :: l) m' := by
  cases a with
  | catlen bs =>
    obtain ⟨hin, hread⟩ := readable_bytes bs p cs m ho
    exact sdscatlen_text ho hin hread hok
  | cat bs =>
    obtain ⟨hin, hread⟩ := readable_cstring bs p cs m ho
    show Grants m (((cstring bs).strlen m).bind _) _
    rw [strlen_cstring]
    exact sdscatlen_text ho hin hread (hok.mono (cstr_length_le bs))
  | catsds j =>
    obtain ⟨hne, hlt, hroomy⟩ := hok
    obtain ⟨q, hq, hmem⟩ := hvars j hne hlt
    show Grants m (ptrs[j]?.bind _) _
    rw [hq]
    exact sdscatsds_text ho hmem hroomy
  | cpylen bs => exact sdscpylen_text (readable_bytes bs) ho hok
  | cpy bs =>
    show Grants m (((cstring bs).strlen m).bind _) _
    rw [strlen_cstring]
    exact sdscpylen_text (readable_cstring bs) ho (hok.mono (cstr_length_le bs))
  | growzero len => exact sdsgrowzero_text ho hok
  | makeRoom addlen => exact (sdsMakeRoomFor_text ho hok).mono fun m' q h => h.1
  | removeFreeSpace => exact (sdsRemoveFreeSpace_text ho hok).mono fun m' q h => h.1
  | readInto size bs =>
    obtain ⟨hroomy, hne, hle, hlt⟩ := hok
    exact readInto_text ho hroomy hne hle hlt

theorem Create.grants {ptrs : List Ptr} {texts : List (List UInt8)} (c : Create) (hok : c.Ok texts) (ho : Texts g l m)
    (hvars : ∀ j < texts.length, ∃ q, ptrs[j]? = some q ∧ (q, texts[j]?.getD []) ∈ l) :
    Grants m (c.run ptrs m) fun m' q => Texts g ((q, c.spec texts) :: l) m' := by
  cases c with
  | empty => exact sdsempty_text ho
  | newlen bs =>
    have hread := ext_read bs [] m
    rw [List.append_nil] at hread
    exact sdsnewlen_text ho (by rintro ⟨⟩) (by rintro ⟨⟩) hread hok
  | new bs =>
    obtain ⟨-, rest, heq⟩ := cstring_eq bs
    have hlen := cstr_length_le bs
    have hok : bs.length + 18 < 2 ^ 64 := hok
    show Grants m (sdsnew m (cstring bs)) _
    unfold sdsnew
    rw [strlen_cstring, heq, if_neg (by rintro ⟨⟩)]
    exact sdsnewlen_text ho (by rintro ⟨⟩) (by rintro ⟨⟩) (ext_read _ _ m) (by omega)
  | dup j =>
    obtain ⟨hlt, hlen⟩ := hok
    obtain ⟨q, hq, hmem⟩ := hvars j hlt
    show Grants m (ptrs[j]?.bind _) _
    rw [hq]
    exact sdsdup_text ho hmem hlen
  | fromlonglong value => exact sdsfromlonglong_text ho value

end Calls

/-! ## Runs -/

section Runs

variable {g : Nat → Option Sdshdr} {m : Mem} {vars : List (Ptr × List UInt8)} {v w : Ptr × List UInt8} {i : Nat}
  {s s' : VarState} {act : VarAct} {fails : List Bool} {acts : List VarAct}

/-- One variable is taken out of the list. -/
theorem Texts.takeOut (ho : Texts g vars m) (hv : vars[i]? = some v) : Texts g ((v.1, v.2) :: vars.eraseIdx i) m := by
  obtain ⟨hi, rfl⟩ := List.getElem?_eq_some_iff.mp hv
  exact Owns.perm ho (List.getElem_cons_eraseIdx_perm hi).symm

/-- And put back with other bytes. -/
theorem Texts.putBack (ho : Texts g ((w.1, w.2) :: vars.eraseIdx i) m) (hv : vars[i]? = some v) :
    Texts g (vars.set i w) m := by
  obtain ⟨hi, -⟩ := List.getElem?_eq_some_iff.mp hv
  exact Owns.perm ho (List.set_perm_cons_eraseIdx hi w).symm

/-- The memory after a call, and the texts when nothing was refused. -/
def VarState.HoldsAfter (m : Mem) (texts : List (List UInt8)) (s : VarState) : Prop :=
  ∃ m' vars, s = .running m' vars ∧ Texts (fun _ => none) vars m' ∧ m'.fails <:+ m.fails ∧
    (true ∉ m.fails → vars.map Prod.snd = texts)

theorem holdsAfter_grants {r : Option (Mem × Option Ptr)} {k : Ptr → List (Ptr × List UInt8)}
    {texts : List (List UInt8)} (ho : Texts (fun _ => none) vars m)
    (hr : Grants m r fun m' q => Texts (fun _ => none) (k q) m') (hk : ∀ q, (k q).map Prod.snd = texts) :
    (VarState.after vars k r).HoldsAfter m texts := by
  obtain ⟨m', hfails, ⟨rfl, hheap, htrue⟩ | ⟨q, rfl, hq⟩⟩ := hr
  · refine ⟨m', vars, rfl, ?_, hfails, fun hno => absurd htrue hno⟩
    unfold Texts
    rw [hheap]
    exact ho
  · exact ⟨m', k q, rfl, hq, hfails, fun _ => hk q⟩

/-- One step, by the kinds of calls. -/
theorem step_holds (ho : Texts (fun _ => none) vars m) (hok : VarOk (.running m vars) act)
    (hs : VarState.step (.running m vars) act = some s') : s'.HoldsAfter m (act.spec (vars.map Prod.snd)) := by
  have htext : ∀ j : Nat, (vars.map Prod.snd)[j]?.getD [] = ((vars[j]?).map Prod.snd).getD [] := by
    intro j
    rw [List.getElem?_map]
  cases act with
  | create c =>
    obtain rfl := Option.some.inj hs
    refine holdsAfter_grants ho (c.grants hok ho fun j hj => ?_) fun q => rfl
    rw [List.length_map] at hj
    refine ⟨vars[j].1, by rw [List.getElem?_map, List.getElem?_eq_getElem hj]; rfl, ?_⟩
    rw [htext, List.getElem?_eq_getElem hj]
    exact List.getElem_mem hj
  | edit i e =>
    obtain ⟨v, hv, rfl⟩ := Option.map_eq_some_iff.mp hs
    obtain ⟨m', hr, hf, ho'⟩ := e.edits (hok v hv) m v.1 (ho.takeOut hv)
    refine ⟨m', vars.set i (v.1, e.spec v.2), ?_, Texts.putBack ho' hv, hf ▸ List.suffix_refl _, fun _ => ?_⟩
    · show VarState.inPlace _ (e.run m v.1) = _
      rw [show e.run m v.1 = some m' from hr]
      rfl
    · show _ = (vars.map Prod.snd).set i (e.spec ((vars.map Prod.snd)[i]?.getD []))
      rw [htext, hv, List.map_set]
      rfl
  | grow i a =>
    obtain ⟨v, hv, rfl⟩ := Option.map_eq_some_iff.mp hs
    have hgrants := a.grants (vars.map Prod.fst) (hok v hv) (ho.takeOut hv) fun j hne hj => by
      rw [List.length_map] at hj
      refine ⟨vars[j].1, by rw [List.getElem?_map, List.getElem?_eq_getElem hj]; rfl, ?_⟩
      rw [htext, List.getElem?_eq_getElem hj]
      exact List.mem_eraseIdx_iff_getElem?.mpr ⟨j, hne, List.getElem?_eq_getElem hj⟩
    refine holdsAfter_grants ho (hgrants.mono fun m' q h => Texts.putBack h hv) fun q => ?_
    show _ = (vars.map Prod.snd).set i (a.spec (vars.map Prod.snd) ((vars.map Prod.snd)[i]?.getD []))
    rw [htext, hv, List.map_set]
    rfl
  | free i =>
    obtain ⟨v, hv, rfl⟩ := Option.map_eq_some_iff.mp hs
    obtain ⟨m', hfree, hf, ho'⟩ := sdsfree_text (ho.takeOut hv)
    refine ⟨m', vars.eraseIdx i, ?_, ho', hf ▸ List.suffix_refl _, fun _ => ?_⟩
    · show VarState.inPlace _ (m.sdsfree (some v.1)) = _
      rw [hfree]
      rfl
    · show _ = (vars.map Prod.snd).eraseIdx i
      rw [List.eraseIdx_map]

/-- By induction on the calls. -/
theorem exec_holds (ho : Texts (fun _ => none) vars m) (hok : StepsOk strings VarOk (.running m vars) acts)
    (hs : strings.exec (.running m vars) acts = some s) :
    s.HoldsAfter m (acts.foldl VarAct.spec (vars.map Prod.snd)) := by
  induction acts generalizing m vars with
  | nil =>
    obtain rfl := Option.some.inj hs
    exact ⟨m, vars, rfl, ho, List.suffix_refl _, fun _ => rfl⟩
  | cons act acts ih =>
    obtain ⟨s1, hs1, hrest⟩ := Option.bind_eq_some_iff.mp hs
    obtain ⟨hact, hacts⟩ := hok s1 hs1
    obtain ⟨m1, vars1, rfl, ho1, hf1, htexts1⟩ := step_holds ho hact hs1
    obtain ⟨m', vars', rfl, ho', hf', htexts'⟩ := ih ho1 hacts hrest
    refine ⟨m', vars', rfl, ho', hf'.trans hf1, fun hno => ?_⟩
    rw [htexts' fun htrue => hno (hf1.subset htrue), htexts1 hno]
    rfl

end Runs

end BeanRaft.Slice
