import BeanRaft.Lib.Lts
import BeanRaft.Slice.Format

/-!
# BeanRaft.Slice.Objects — the class Slice

`slice.cpp` over the strings of `Sds` and `Format`: the constructors, `clear`, `appendFmt` and the overloads of `append`
as a transition system.  A state has the memory and the `data` pointers of all objects, and remembers the last call of
`append` (`Call`); an append that runs into undefined behaviour ends in `undefined`.

* `Refined`: the object of the last append holds its old bytes and then the appended ones, and its `data` is the
  pointer that the string function returned.
* `StepOk`: the condition under which a step keeps this.
-/

namespace BeanRaft.Slice

open CInt Lib Lts

/-- The memory and the member `data` of each object, in the order of construction. -/
structure World where
  mem : Mem
  slices : List (Option Ptr)
  deriving DecidableEq, Repr

/-- The argument of an overload of `append`. -/
inductive Arg
  | slice (y : Nat)
  | str (s : List UInt8)
  | cstr (t : Src)
  | bytes (t : Src) (len : Int32)
  | chr (c : UInt8)
  | num (number : Int64)
  deriving DecidableEq, Repr

namespace World

variable (w : World) (x : Nat)

def data : Option Ptr := w.slices[x]?.join

/-- The object's string. -/
def string : Option Sdshdr := (w.data x).bind w.mem.heap.get

/-- `size()` -/
def size : Nat := ((w.string x).map Sdshdr.len).getD 0

def avail : Nat := ((w.string x).map Sdshdr.sdsavail).getD 0

/-- The bytes that the object holds. -/
def held : List Byte := ((w.string x).map fun h => h.buf.take h.len).getD []

/-! ## slice.cpp -/

/-- A new object whose `data` is what a string function returned. -/
def construct (r : Option (Mem × Option Ptr)) : Option World := r.map fun (m, p) => ⟨m, w.slices ++ [p]⟩

/-- `Slice(const Slice &s)`: the storage of the new object held `raw` as its `data`. -/
def copyConstruct (raw : Option Ptr) (s : Nat) : Option World :=
  (w.mem.sdsfree raw).bind fun m =>
    (w.data s).bind fun p => (m.heap.get p).bind fun h => w.construct (sdsnewlen m (.sds p 0) h.len)

/-- `Slice(Slice &&s)` -/
def moveConstruct (raw : Option Ptr) (s : Nat) : Option World :=
  if s < w.slices.length then
    (w.mem.sdsfree raw).map fun m => ⟨m, w.slices.set s none ++ [w.data s]⟩
  else none

def initIfNeed : Option World :=
  match w.data x with
  | none => (sdsempty w.mem).map fun (m, p) => ⟨m, w.slices.set x p⟩
  | some _ => some w

def clear : Option World :=
  if x < w.slices.length then (w.mem.sdsfree (w.data x)).map fun m => ⟨m, w.slices.set x none⟩ else none

/-- A call of a string function on `data`, whose result is stored in `data` or dropped; the value returned, too. -/
def call (stored : Bool) (f : Mem → Ptr → Option (Mem × Option Ptr)) : Option (World × Option Ptr) :=
  (w.data x).bind fun p => (f w.mem p).map fun (m, r) => (⟨m, if stored then w.slices.set x r else w.slices⟩, r)

def appendFmt (fmt : Src) (args : List VaArg) : Option World :=
  (w.initIfNeed x).bind fun w => (w.call x true fun m p => sdscatvfmt m p fmt args).map Prod.fst

/-- `append(const Slice &s)`: nothing is called for a NULL `s.data`. -/
def appendSlice (s : Nat) : Option (World × Option (Option Ptr)) :=
  match w.data s with
  | none => some (w, none)
  | some _ =>
    (w.initIfNeed x).bind fun w => (w.data s).bind fun q => (w.mem.heap.get q).bind fun h =>
      (w.call x true fun m p => sdscatlen m p (.sds q 0) h.len).map fun (w, r) => (w, some r)

def appendString (s : List UInt8) : Option (World × Option (Option Ptr)) :=
  (w.initIfNeed x).bind fun w =>
    (w.call x true fun m p => sdscatlen m p (.ext (s.map some ++ [some 0])) s.length).map fun (w, r) => (w, some r)

def appendCStr (s : Src) : Option (World × Option (Option Ptr)) :=
  (w.initIfNeed x).bind fun w => (w.call x true fun m p => sdscat m p s).map fun (w, r) => (w, some r)

def appendBytes (s : Src) (len : Int32) : Option (World × Option (Option Ptr)) :=
  (w.initIfNeed x).bind fun w =>
    (w.call x true fun m p => sdscatlen m p s (uint64 len.toInt)).map fun (w, r) => (w, some r)

/-- `append(const char s)` drops the pointer that `sdscatlen` returns. -/
def appendChar (s : UInt8) : Option (World × Option (Option Ptr)) :=
  (w.initIfNeed x).bind fun w =>
    (w.call x false fun m p => sdscatlen m p (.ext [some s]) 1).map fun (w, r) => (w, some r)

/-- `append(long long number)` drops it, too. -/
def appendLongLong (number : Int64) : Option (World × Option (Option Ptr)) :=
  (w.initIfNeed x).bind fun w =>
    (ll2string (List.replicate 64 none) 64 number).bind fun (buffer, num_len) =>
      (w.call x false fun m p => sdscatlen m p (.ext buffer) num_len).map fun (w, r) => (w, some r)

def append : Arg → Option (World × Option (Option Ptr))
  | .slice s => w.appendSlice x s
  | .str s => w.appendString x s
  | .cstr s => w.appendCStr x s
  | .bytes s len => w.appendBytes x s len
  | .chr s => w.appendChar x s
  | .num number => w.appendLongLong x number

end World

/-! ## The system -/

/-- The bytes that a call appends; `none` for an argument that cannot be passed. -/
def Arg.appended (w : World) : Arg → Option (List Byte)
  | .slice s => if s < w.slices.length then some (w.held s) else none
  | .str s => some (s.map some)
  | .cstr s => (s.strlen w.mem).bind fun n => s.read w.mem n
  | .bytes s len => if 0 ≤ len.toInt then s.read w.mem len.toInt.toNat else none
  | .chr s => some [some s]
  | .num number => some ((decimal number.toInt).map some)

/-- The last call of `append`: its object, what this held, what was appended, and the result of the string function
when one was called. -/
structure Call where
  object : Nat
  old : List Byte
  appended : List Byte
  returned : Option (Option Ptr)
  deriving DecidableEq, Repr

inductive State
  | running (w : World) (last : Option Call)
  | undefined
  deriving DecidableEq, Repr

inductive Act
  | default
  | ofCStr (s : Src)
  | ofBytes (s : Src) (len : Int32)
  | copy (raw : Option Ptr) (s : Nat)
  | move (raw : Option Ptr) (s : Nat)
  | append (x : Nat) (a : Arg)
  | appendFmt (x : Nat) (fmt : Src) (args : List VaArg)
  | clear (x : Nat)
  deriving DecidableEq, Repr

/-- Everything but `append`. -/
def World.other (w : World) : Act → Option World
  | .default => w.construct (some (w.mem, none))
  | .ofCStr s => w.construct (sdsnew w.mem s)
  | .ofBytes s len => w.construct (sdsnewlen w.mem s (uint64 len.toInt))
  | .copy raw s => w.copyConstruct raw s
  | .move raw s => w.moveConstruct raw s
  | .append _ _ => none
  | .appendFmt x fmt args => if x < w.slices.length then w.appendFmt x fmt args else none
  | .clear x => w.clear x

/-- The transition function. -/
def State.step : State → Act → Option State
  | .undefined, _ => none
  | .running w _, .append x a =>
    if x < w.slices.length then
      (a.appended w).map fun bs =>
        match w.append x a with
        | none => .undefined
        | some (w', returned) => .running w' (some ⟨x, w.held x, bs, returned⟩)
    else none
  | .running w _, act => (w.other act).map (.running · none)

/-- No object yet, and an allocator that always succeeds. -/
def State.start : State := .running ⟨⟨⟨[]⟩, []⟩, []⟩ none

/-- The objects as a transition system. -/
def slices : System State Act where
  init s := s = .start
  step := State.step

/-! ## The property and its condition -/

/-- The object has a string, which is `bs`, with a null term. -/
def World.Holds (w : World) (x : Nat) (bs : List Byte) : Prop :=
  match w.string x with
  | none => False
  | some h => h.len = bs.length ∧ h.buf.take (bs.length + 1) = bs ++ [some 0]

instance (w : World) (x : Nat) (bs : List Byte) : Decidable (w.Holds x bs) := by
  unfold World.Holds
  cases w.string x <;> infer_instance

/-- The last append has worked. -/
def Refined : State → Prop
  | .undefined => False
  | .running _ none => True
  | .running w (some c) => w.Holds c.object (c.old ++ c.appended) ∧ ∀ r, c.returned = some r → w.data c.object = r

instance : ∀ s : State, Decidable (Refined s)
  | .undefined => inferInstanceAs (Decidable False)
  | .running _ none => inferInstanceAs (Decidable True)
  | .running w (some c) =>
    match h : c.returned with
    | none => decidable_of_iff (w.Holds c.object (c.old ++ c.appended))
        ⟨fun hk => ⟨hk, fun r hr => by rw [h] at hr; cases hr⟩, And.left⟩
    | some r => decidable_of_iff (w.Holds c.object (c.old ++ c.appended) ∧ w.data c.object = r)
        ⟨fun hk => ⟨hk.1, fun r' hr => by rw [h] at hr; cases hr; exact hk.2⟩, fun hk => ⟨hk.1, hk.2 r h⟩⟩

/-- Where the appended bytes are. -/
def Arg.source (w : World) : Arg → Src
  | .slice s => match w.data s with
    | none => .null
    | some q => .sds q 0
  | .cstr s => s
  | .bytes s _ => s
  | .str s => .ext (s.map some)
  | .chr s => .ext [some s]
  | .num number => .ext ((decimal number.toInt).map some)

/-- The overload stores the pointer that the string function returns. -/
def Arg.stored : Arg → Bool
  | .chr _ => false
  | .num _ => false
  | _ => true

/-- The source is in the object's own string, and where the `n` bytes are to be written. -/
def World.overlaps (w : World) (x : Nat) (t : Src) (n : Nat) : Bool :=
  match w.data x with
  | none => false
  | some p => t.meets p (w.size x) n

/-- The source is in the object's own string. -/
def World.owns (w : World) (x : Nat) (t : Src) : Bool :=
  match w.data x with
  | none => false
  | some p => t.inside p

/-- A Slice without a string is appended. -/
def Arg.isNull (w : World) : Arg → Bool
  | .slice s => (w.data s).isNone
  | _ => false

/-- A call that appends `n` bytes works: there is room for them and they are not where they are written, or the string
can move: the overload stores the new pointer, the source is not in the old string, and no size wraps.  And the bytes
are held in a buffer, which is missing when a NULL Slice is appended to a NULL one. -/
def CallOk (w : World) (x : Nat) (a : Arg) (n : Nat) : Prop :=
  (n ≤ w.avail x ∧ w.overlaps x (a.source w) n = false ∨
    w.avail x < n ∧ a.stored = true ∧ w.owns x (a.source w) = false ∧ Roomy (w.size x) n) ∧
  (w.data x = none → a.isNull w = false)

instance (w : World) (x : Nat) (a : Arg) (n : Nat) : Decidable (CallOk w x a n) := by
  unfold CallOk
  infer_instance

/-- Every append meets `CallOk`, and a copy or move constructor finds NULL in the storage of its object. -/
def StepOk : State → Act → Prop
  | .running w _, .append x a => ∀ bs, a.appended w = some bs → CallOk w x a bs.length
  | _, .copy raw _ => raw = none
  | _, .move raw _ => raw = none
  | _, _ => True

instance : ∀ (s : State) (act : Act), Decidable (StepOk s act)
  | .running w _, .append x a =>
    match h : a.appended w with
    | none => isTrue fun bs hbs => by rw [h] at hbs; cases hbs
    | some bs =>
      decidable_of_iff (CallOk w x a bs.length)
        ⟨fun hk bs' hbs => by rw [h] at hbs; cases hbs; exact hk, fun hk => hk bs h⟩
  | .undefined, .append _ _ => isTrue trivial
  | .running _ _, .copy raw _ | .undefined, .copy raw _ => inferInstanceAs (Decidable (raw = none))
  | .running _ _, .move raw _ | .undefined, .move raw _ => inferInstanceAs (Decidable (raw = none))
  | .running _ _, .default | .running _ _, .ofCStr _ | .running _ _, .ofBytes _ _ => isTrue trivial
  | .running _ _, .appendFmt _ _ _ | .running _ _, .clear _ => isTrue trivial
  | .undefined, .default | .undefined, .ofCStr _ | .undefined, .ofBytes _ _ => isTrue trivial
  | .undefined, .appendFmt _ _ _ | .undefined, .clear _ => isTrue trivial

end BeanRaft.Slice
