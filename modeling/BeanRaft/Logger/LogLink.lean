import BeanRaft.Logger.OnDisk

/-!
# BeanRaft.Logger.LogLink — the link to the newest log file

`_createFile` deletes `<filename>.log` and makes a link there whose target is the name of the new file without its
directory (lines 231-238).

* `Disk.follow`: where a link leads to.  `follow_link`: from its own directory, to the file.
* `Linked`: the link is to the last file; every call keeps this when `unlink` and `symlink` succeed.
* `link_newest`: after every such run the link leads to the newest file.
-/

namespace BeanRaft.Logger

open Lib

/-- The directory of a path, with its last `/`. -/
def dirPart (p : Path) : Path := (p.reverse.dropWhile (· ≠ 47)).reverse

/-- Where a path leads to: the target of a link is relative to its directory. -/
def Disk.follow (disk : Disk) (p : Path) : Path :=
  match disk p with
  | some (.link target) => dirPart p ++ target
  | _ => p

/-- The stream is on a log file, and the link is to the last one. -/
structure Linked (s : LogFiles) : Prop where
  stream : ∀ p, s.stream = some (.file p) → ∃ t, p = s.name t
  link : ∀ t, s.created.getLast? = some t → s.disk s.symlinkname = some (.link (constBasename (s.name t)))

/-- The creations of a call. -/
def FileCall.creation {κ : Type} : FileCall κ → Option κ
  | write _ c _ _ => some c
  | flush _ _ => none
  | rotateIfNeed _ c => some c

section Links

variable {s : LogFiles} {c : Creation}

theorem dirPart_basename (p : Path) : dirPart p ++ constBasename p = p := by
  unfold dirPart constBasename
  rw [← List.reverse_append, List.takeWhile_append_dropWhile, List.reverse_reverse]

theorem dirPart_append {ext : Path} (h : 47 ∉ ext) (p : Path) : dirPart (p ++ ext) = dirPart p := by
  unfold dirPart
  rw [List.reverse_append, List.dropWhile_append_of_pos]
  intro c hc
  have hne : c ≠ 47 := by
    rintro rfl
    exact h (List.mem_reverse.mp hc)
  simpa using hne

/-- The link leads from its directory to the file that it names. -/
theorem follow_link {t : Tm} (h : s.disk s.symlinkname = some (.link (constBasename (s.name t)))) :
    s.disk.follow s.symlinkname = s.name t := by
  have hlog : 47 ∉ ascii ".log" := by decide
  have hdot : 47 ∉ ascii "." := by decide
  have hdash : 47 ∉ ascii "-" := by decide
  have hdigit : digitValue 47 = none := rfl
  have hext : 47 ∉ ascii "." ++ (t.stamp ++ (ascii "." ++ numeral s.pid)) := by
    unfold Tm.stamp
    simp only [List.mem_append, not_or]
    simp [hdot, hdash, not_mem_decimal hdigit, not_mem_zeroPad hdigit, not_mem_numeral hdigit]
  have hname : s.name t = s.filename ++ (ascii "." ++ (t.stamp ++ (ascii "." ++ numeral s.pid))) := by
    unfold LogFiles.name
    simp only [List.append_assoc]
  have hdir : dirPart s.symlinkname = dirPart (s.name t) := by
    rw [hname, dirPart_append hext]
    exact dirPart_append hlog _
  unfold Disk.follow
  rw [h]
  dsimp only
  rw [hdir]
  exact dirPart_basename _

theorem Linked.openFile (h : Linked s) (hunlinks : c.unlinks) (hsymlinks : c.symlinks) : Linked (s.openFile c) := by
  by_cases hc : s.Creates c
  · have hlink := name_ne_symlinkname (s := s) c.tm_time
    rw [openFile_created hc]
    refine ⟨fun p hp => ⟨c.tm_time, (Out.file.inj (Option.some.inj hp)).symm⟩, fun t ht => ?_⟩
    have hlast : c.tm_time = t := by simpa using ht
    subst hlast
    show Disk.set _ _ _ s.symlinkname = some (.link (constBasename (s.name c.tm_time)))
    rw [Disk.set_of_ne hlink.symm]
    unfold LogFiles.relink
    simp [hunlinks, hsymlinks]
  · rcases openFile_failed hc with hopen | ⟨-, hleft, -⟩
    · rw [hopen]
      exact ⟨h.stream, h.link⟩
    · exact absurd hunlinks hleft

/-- Bytes go to a log file, which is not the link. -/
theorem Linked.drain (h : Linked s) {out : Out} (hs : s.stream = some out) (tr : Transfer) : Linked (s.drain out tr) := by
  unfold LogFiles.drain LogFiles.put
  cases out with
  | stdout => exact ⟨h.stream, h.link⟩
  | file path =>
    obtain ⟨t, rfl⟩ := h.stream path hs
    dsimp only
    split
    · refine ⟨h.stream, fun t' ht' => ?_⟩
      show Disk.set _ _ _ s.symlinkname = _
      rw [Disk.set_of_ne (name_ne_symlinkname t).symm]
      exact h.link t' ht'
    · exact ⟨h.stream, h.link⟩

theorem Linked.close (h : Linked s) (tr : Transfer) : Linked (s.closeStream tr) := by
  unfold LogFiles.closeStream
  split
  · exact h
  · rename_i out hs
    refine ⟨fun p hp => ?_, (h.drain hs tr.last).link⟩
    exact absurd hp (by simp)

theorem Linked.createFile (h : Linked s) (hunlinks : c.unlinks) (hsymlinks : c.symlinks) : Linked (s.createFile c) := by
  unfold LogFiles.createFile
  split_ifs
  · exact ⟨fun p hp => absurd hp (by simp), h.link⟩
  · apply Linked.openFile _ hunlinks hsymlinks
    apply Linked.close
    exact ⟨h.stream, h.link⟩

theorem Linked.call (h : Linked s) (a : FileCall Creation) (ha : ∀ c ∈ a.creation, c.unlinks ∧ c.symlinks) :
    Linked (s.call a).1 := by
  cases a with
  | write l c r tr =>
    obtain ⟨hunlinks, hsymlinks⟩ := ha c rfl
    have hensure : Linked (s.ensure c) := by
      unfold LogFiles.ensure
      split_ifs
      · exact h.createFile hunlinks hsymlinks
      · exact h
    show Linked (s.write l c r tr).1
    unfold LogFiles.write
    dsimp only
    split
    · exact hensure
    · rename_i out hs
      have hpush : Linked { s.ensure c with buffer := (s.ensure c).buffer ++ l.bytes.take (r.put l) } :=
        ⟨hensure.stream, hensure.link⟩
      have hdrain := hpush.drain hs tr
      split_ifs
      · exact ⟨hdrain.stream, hdrain.link⟩
      · exact ⟨hdrain.stream, hdrain.link⟩
  | flush e tr =>
    show Linked (s.flush e tr)
    unfold LogFiles.flush
    split
    · exact h
    · rename_i out hs
      have hdrain := h.drain hs tr
      exact ⟨hdrain.stream, hdrain.link⟩
  | rotateIfNeed max_file_size c =>
    obtain ⟨hunlinks, hsymlinks⟩ := ha c rfl
    show Linked (s.rotateIfNeed max_file_size c)
    unfold LogFiles.rotateIfNeed LogFiles.rotate
    split_ifs
    · exact h
    · exact (h.close c.closing).createFile hunlinks hsymlinks
    · exact h

theorem linked_after (calls : List (FileCall Creation)) (h : Linked s)
    (hcalls : ∀ a ∈ calls, ∀ c ∈ a.creation, c.unlinks ∧ c.symlinks) : Linked (s.after calls) := by
  induction calls generalizing s with
  | nil => exact h
  | cons a calls ih =>
    apply ih (h.call a (hcalls a (by simp)))
    intro b hb
    exact hcalls b (by simp [hb])

/-- A stream is on the newest file. -/
theorem Sim.stream_last {disk0 : Disk} {w : FileWritter} (h : Sim disk0 s w) {t : Tm} (ht : s.created.getLast? = some t)
    {p : Path} (hp : s.stream = some (.file p)) : p = s.name t := by
  obtain ⟨old, -, hstream⟩ := h.files
  cases hw : w.stream with
  | none =>
    rw [hw] at hstream
    rw [hstream.1] at hp
    exact absurd hp (by simp)
  | some f =>
    rw [hw] at hstream
    rcases hstream with ⟨-, hs, -⟩ | ⟨-, t', hs, hcreated, -⟩
    · rw [hs] at hp
      exact absurd hp (by simp)
    · rw [hcreated, List.getLast?_concat] at ht
      rw [← Option.some.inj ht]
      rw [hs] at hp
      exact (Out.file.inj (Option.some.inj hp)).symm

/-- **The link leads to the newest log file** after every run in which it can be replaced: to the one that is open, when
there is one. -/
theorem link_newest (name : String) (pid : Nat) (disk : Disk) (c : Creation) (calls : List (FileCall Creation))
    (hc : c.unlinks ∧ c.symlinks) (hcalls : ∀ a ∈ calls, ∀ c ∈ a.creation, c.unlinks ∧ c.symlinks) :
    let s := (LogFiles.new (ascii name) pid disk c).after calls
    ∀ t, s.created.getLast? = some t → s.disk.follow s.symlinkname = s.name t ∧ s.disk (s.name t) ≠ none ∧
      ∀ p, s.stream = some (.file p) → p = s.name t := by
  intro s t ht
  have hdisk : OnDisk disk s := onDisk_after name pid disk c calls
  have hsim := (sim_calls (sim_new name pid disk c) calls).2
  rw [runBoth_after] at hsim
  have hnew : Linked (.new (ascii name) pid disk c) := by
    have hbegin : Linked (.begin (ascii name) pid disk) :=
      ⟨fun p hp => absurd hp (by simp [LogFiles.begin]), fun t ht => absurd ht (by simp [LogFiles.begin])⟩
    have hcreate := hbegin.createFile hc.1 hc.2
    exact ⟨hcreate.stream, hcreate.link⟩
  have hlinked : Linked s := linked_after calls hnew hcalls
  refine ⟨follow_link (hlinked.link t ht), hdisk.stays t (List.mem_of_getLast? ht), ?_⟩
  intro p hp
  exact hsim.stream_last ht hp

/-- A rotation a second later, and one in that same second, which fails: the link still leads to the second file. -/
theorem link_newest_noon :
    let s := (LogFiles.new (ascii "log") 7 (fun _ => none) atNoon).after
      [.rotateIfNeed 0 afterNoon, .rotateIfNeed 0 afterNoon]
    s.created = [atNoon.tm_time, afterNoon.tm_time] ∧ s.stream = none ∧
      s.disk.follow s.symlinkname = s.name afterNoon.tm_time ∧ s.disk (s.name afterNoon.tm_time) ≠ none := by
  intro s
  have hcreated : s.created = [atNoon.tm_time, afterNoon.tm_time] := by decide +kernel
  have hstream : s.stream = none := by decide +kernel
  have hnewest := link_newest "log" 7 (fun _ => none) atNoon [.rotateIfNeed 0 afterNoon, .rotateIfNeed 0 afterNoon]
    ⟨rfl, rfl⟩ (by simp [FileCall.creation, afterNoon, atNoon]) afterNoon.tm_time (by rw [hcreated]; rfl)
  exact ⟨hcreated, hstream, hnewest.1, hnewest.2.1⟩

end Links

end BeanRaft.Logger
