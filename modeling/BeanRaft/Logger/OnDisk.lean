import BeanRaft.Logger.LogFiles

/-!
# BeanRaft.Logger.OnDisk — the files on the disk are those of FileWritter

`LogFiles` and `FileWritter` make the same calls; here are the files of the second found among those of the first.

* `Sim`: a `FileWritter` whose files are on the disk, byte by byte but for what is in the buffer or was lost from it, and
  nothing else has changed but the link and the files that could not be deleted.
* `Sim.drain`, `Sim.push`, `Sim.close`, `Sim.openFile`: what the steps of the calls do to it.
* `sim_run`: over every run of calls, `LogFiles` refines `FileWritter`.
* `rotate_exact`: a rotation leaves a stream exactly when the kernel allows it, no file of the run is from the same
  second, and none was there before.
* `Sim.holds`: with the bytes in the buffer the files hold everything, when nothing was lost.
-/

namespace BeanRaft.Logger

open Lib

/-- The file of a second, with `buf` in the buffer of its stream: its header and what each `fwrite` has put behind it. -/
def LogFiles.Stored (s : LogFiles) (t : Tm) (buf : List UInt8) (f : LogFile) : Prop :=
  ∃ hostname bytes, f.header_len = (t.headerText hostname).length ∧ s.disk (s.name t) = some (.file bytes) ∧
    Carries bytes buf (t.headerText hostname ++ f.body.flatMap Frag.bytes) s.lost

/-- A file whose stream is closed. -/
def LogFiles.Closed (s : LogFiles) (t : Tm) (f : LogFile) : Prop := s.Stored t [] f

/-- The stream is that of the last file, or `stdout` without a file name. -/
def LogFiles.Streams (s : LogFiles) (old : List Tm) : Option LogFile → Prop
  | none => s.stream = none ∧ s.created = old ∧ s.buffer = [] ∧ (s.filename = [] → s.stdout = [])
  | some f =>
    (s.filename = [] ∧ s.stream = some .stdout ∧ s.created = old ∧
      Carries s.stdout s.buffer (f.body.flatMap Frag.bytes) s.lost) ∨
    s.filename ≠ [] ∧ ∃ t, s.stream = some (.file (s.name t)) ∧ s.created = old ++ [t] ∧ s.Stored t s.buffer f

/-- The bytes of the file of a second, with those that are still in the buffer of its stream. -/
def LogFiles.held (s : LogFiles) (t : Tm) : Option (List UInt8) :=
  match s.disk (s.name t) with
  | some (.file bytes) => some (if s.stream = some (.file (s.name t)) then bytes ++ s.buffer else bytes)
  | _ => none

/-- The file of a second holds, with what is in the buffer, its header and all that was put behind it. -/
def LogFiles.Holds (s : LogFiles) (t : Tm) (f : LogFile) : Prop :=
  ∃ hostname, s.held t = some (t.headerText hostname ++ f.body.flatMap Frag.bytes)

/-- Beside the link, only the files of the run are new on the disk, one for each second, and no old one has changed.  Those
that were left over are empty. -/
structure OnDisk (disk0 : Disk) (s : LogFiles) : Prop where
  stays : ∀ t ∈ s.created, s.disk (s.name t) ≠ none
  nodup : s.created.Nodup
  fresh : ∀ t ∈ s.created, disk0 (s.name t) = none
  left : ∀ t ∈ s.leftover, t ∉ s.created ∧ s.disk (s.name t) = some (.file []) ∧ disk0 (s.name t) = none
  frame : ∀ p, p ≠ s.symlinkname → (∀ t ∈ s.created, p ≠ s.name t) → (∀ t ∈ s.leftover, p ≠ s.name t) → s.disk p = disk0 p

/-- The files of `w`, in the order of their creation, are on the disk. -/
structure Sim (disk0 : Disk) (s : LogFiles) (w : FileWritter) : Prop where
  filename : w.filename = "" ↔ s.filename = []
  file_size : w.file_size = s.file_size
  errno : w.errno = s.errno
  files : ∃ old, List.Forall₂ s.Closed old w.closed ∧ s.Streams old w.stream
  onDisk : OnDisk disk0 s

section Simulation

variable {disk0 : Disk} {s s' : LogFiles} {w : FileWritter} {t : Tm} {f : LogFile} {old : List Tm}
  {fs : List LogFile} {c : Creation}

theorem LogFiles.Stored.congr {buf : List UInt8} (h : s.Stored t buf f) (hname : s'.name t = s.name t)
    (hdisk : s'.disk (s.name t) = s.disk (s.name t)) (hlost : s'.lost = false → s.lost = false) : s'.Stored t buf f := by
  obtain ⟨hostname, bytes, hlen, hfile, hcarries⟩ := h
  refine ⟨hostname, bytes, hlen, ?_, hcarries.mono hlost⟩
  rw [hname, hdisk]
  exact hfile

/-- Files that a change leaves alone are still there. -/
theorem forall₂_congr (h : List.Forall₂ s.Closed old fs) (hname : ∀ t, s'.name t = s.name t)
    (hdisk : ∀ t ∈ old, s'.disk (s.name t) = s.disk (s.name t)) (hlost : s'.lost = false → s.lost = false) :
    List.Forall₂ s'.Closed old fs := by
  induction h with
  | nil => exact .nil
  | cons hf _ ih =>
    refine .cons (hf.congr (hname _) (hdisk _ (by simp)) hlost) (ih ?_)
    intro t ht
    exact hdisk t (by simp [ht])

theorem closeStream_rest (w : FileWritter) : w.closeStream.filename = w.filename ∧
    w.closeStream.file_size = w.file_size ∧ w.closeStream.errno = w.errno := by
  unfold FileWritter.closeStream
  split <;> exact ⟨rfl, rfl, rfl⟩

/-- The disk is left alone. -/
theorem OnDisk.rest (h : OnDisk disk0 s) (file_size : Nat) (stream : Option Out) (errno : Errno) (buffer stdout : List UInt8)
    (lost : Bool) :
    OnDisk disk0 { s with
      file_size := file_size, stream := stream, errno := errno, buffer := buffer, stdout := stdout, lost := lost } :=
  ⟨h.stays, h.nodup, h.fresh, h.left, h.frame⟩

/-- Bytes are appended to a file of the run. -/
theorem OnDisk.append (h : OnDisk disk0 s) (ht : t ∈ s.created) (bytes buffer : List UInt8) (lost : Bool) :
    OnDisk disk0 { s with disk := s.disk.set (s.name t) (some (.file bytes)), buffer := buffer, lost := lost } := by
  refine ⟨?_, h.nodup, h.fresh, ?_, ?_⟩
  · intro t' ht'
    show Disk.set _ _ _ (s.name t') ≠ none
    by_cases heq : s.name t' = s.name t
    · rw [heq, Disk.set_self]
      simp
    · rw [Disk.set_of_ne heq]
      exact h.stays t' ht'
  · intro t' ht'
    obtain ⟨hnot, hempty, hfresh⟩ := h.left t' ht'
    refine ⟨hnot, ?_, hfresh⟩
    show Disk.set _ _ _ (s.name t') = _
    rw [Disk.set_of_ne]
    · exact hempty
    · intro heq
      rw [name_inj heq] at hnot
      exact hnot ht
  · intro p hp hall hleft
    have hother : p ≠ s.name t := hall t ht
    show Disk.set _ _ _ p = disk0 p
    rw [Disk.set_of_ne hother]
    exact h.frame p hp hall hleft

theorem Sim.resize (h : Sim disk0 s w) (n : Nat) : Sim disk0 { s with file_size := n } { w with file_size := n } := by
  obtain ⟨old, hfiles, hstream⟩ := h.files
  refine ⟨h.filename, rfl, h.errno, ⟨old, hfiles, ?_⟩, h.onDisk.rest _ _ _ _ _ _⟩
  cases hw : w.stream with
  | none =>
    rw [hw] at hstream
    exact hstream
  | some f =>
    rw [hw] at hstream
    exact hstream

theorem lost_of_or {lost b : Bool} (h : (lost || b) = false) : lost = false := (Bool.or_eq_false_iff.mp h).1

/-- The file of the stream is none of the closed ones. -/
theorem OnDisk.name_ne (h : OnDisk disk0 s) (hold : s.created = old ++ [t]) : ∀ t' ∈ old, s.name t' ≠ s.name t := by
  intro t' ht' heq
  have hnodup := h.nodup
  rw [hold, List.nodup_append] at hnodup
  exact hnodup.2.2 t' ht' t (by simp) (name_inj heq)

/-- **What a stream writes of its buffer changes nothing for the class without a disk.** -/
theorem Sim.drain (h : Sim disk0 s w) {out : Out} (hs : s.stream = some out) (tr : Transfer) :
    Sim disk0 (s.drain out tr) w := by
  obtain ⟨old, hfiles, hstream⟩ := h.files
  cases hw : w.stream with
  | none =>
    rw [hw] at hstream
    rw [hstream.1] at hs
    exact absurd hs (by simp)
  | some f =>
    rw [hw] at hstream
    rcases hstream with ⟨hempty, hstdout, hold, hcarries⟩ | ⟨hne, t, hfile, hold, hostname, bytes, hlen, hbytes, hcarries⟩
    · obtain rfl : Out.stdout = out := Option.some.inj (hstdout.symm.trans hs)
      refine ⟨h.filename, h.file_size, h.errno, ⟨old, ?_, ?_⟩, h.onDisk.rest _ _ _ _ _ _⟩
      · exact forall₂_congr hfiles (fun _ => rfl) (fun _ _ => rfl) lost_of_or
      · rw [hw]
        exact .inl ⟨hempty, hs, hold, hcarries.transfer tr⟩
    · obtain rfl : Out.file (s.name t) = out := Option.some.inj (hfile.symm.trans hs)
      have hne_old := h.onDisk.name_ne hold
      have hdisk := h.onDisk.append (t := t) (by simp [hold]) (bytes ++ tr.taken s.buffer) (tr.left s.buffer)
        (s.lost || tr.loses s.buffer)
      rw [drain_file hbytes]
      refine ⟨h.filename, h.file_size, h.errno, ⟨old, ?_, ?_⟩, hdisk⟩
      · refine forall₂_congr hfiles (fun _ => rfl) (fun t' ht' => ?_) lost_of_or
        exact Disk.set_of_ne (hne_old t' ht') _ _
      · rw [hw]
        refine .inr ⟨hne, t, hs, hold, hostname, _, hlen, Disk.set_self _ _ _, hcarries.transfer tr⟩

/-- Both writers have a stream. -/
theorem Sim.stream_some (h : Sim disk0 s w) (hw : w.stream = some f) : ∃ out, s.stream = some out := by
  obtain ⟨old, -, hstream⟩ := h.files
  rw [hw] at hstream
  rcases hstream with ⟨-, hs, -⟩ | ⟨-, t, hs, -⟩ <;> exact ⟨_, hs⟩

theorem Sim.stream_none (h : Sim disk0 s w) (hs : s.stream = none) : w.stream = none := by
  cases hw : w.stream with
  | none => rfl
  | some f =>
    obtain ⟨out, hout⟩ := h.stream_some hw
    exact absurd (hs.symm.trans hout) (by simp)

/-- Without a stream there is nothing in a buffer. -/
theorem Sim.buffer_nil (h : Sim disk0 s w) (hs : s.stream = none) : s.buffer = [] := by
  obtain ⟨old, -, hstream⟩ := h.files
  rw [h.stream_none hs] at hstream
  exact hstream.2.2.1

/-- Both writers without a stream. -/
theorem Sim.close (h : Sim disk0 s w) (hname : s.filename ≠ []) (tr : Transfer) :
    Sim disk0 (s.closeStream tr) w.closeStream := by
  obtain ⟨hfilename, hsize, herrno⟩ := closeStream_rest w
  cases hs : s.stream with
  | none =>
    rw [files_closeStream hs]
    refine ⟨by rw [hfilename]; exact h.filename, hsize.trans h.file_size, herrno.trans h.errno, ?_, h.onDisk⟩
    unfold FileWritter.closeStream
    rw [h.stream_none hs]
    exact h.files
  | some out =>
    have hclose : s.closeStream tr = { s.drain out tr.last with stream := none } := by
      unfold LogFiles.closeStream
      rw [hs]
    have hdrain := h.drain hs tr.last
    have hbuffer : (s.drain out tr.last).buffer = [] := tr.left_last s.buffer
    have hfile : (s.drain out tr.last).filename = s.filename := put_filename _ _
    rw [hclose]
    generalize s.drain out tr.last = s1 at hdrain hbuffer hfile ⊢
    obtain ⟨old, hfiles, hstream⟩ := hdrain.files
    refine ⟨by rw [hfilename]; exact hdrain.filename, hsize.trans hdrain.file_size, herrno.trans hdrain.errno,
      ⟨s1.created, ?_, ?_⟩, hdrain.onDisk.rest _ _ _ _ _ _⟩
    · unfold FileWritter.closeStream
      cases hw : w.stream with
      | none =>
        rw [hw] at hstream
        obtain ⟨-, hold, -⟩ := hstream
        rw [hold]
        exact hfiles
      | some f =>
        rw [hw] at hstream
        rcases hstream with ⟨hempty, -⟩ | ⟨-, t, -, hold, hstored⟩
        · exact absurd (hfile.symm.trans hempty) hname
        · rw [hbuffer] at hstored
          rw [hold]
          exact List.rel_append hfiles (.cons hstored .nil)
    · rw [closeStream_stream]
      exact ⟨rfl, rfl, hbuffer, fun hempty => absurd (hfile.symm.trans hempty) hname⟩

/-- A path that is free is that of no file of the run. -/
theorem OnDisk.ne_name (h : OnDisk disk0 s) {p : Path} (hfree : s.disk p = none) :
    (∀ t ∈ s.created, p ≠ s.name t) ∧ ∀ t ∈ s.leftover, p ≠ s.name t := by
  constructor
  · rintro t ht rfl
    exact h.stays t ht hfree
  · rintro t ht rfl
    rw [(h.left t ht).2.1] at hfree
    exact absurd hfree (by simp)

theorem OnDisk.created (h : OnDisk disk0 s) (hc : s.Creates c) : OnDisk disk0 (s.openFile c) := by
  have hfree := hc.2.2
  obtain ⟨hne, hne_left⟩ := h.ne_name hfree
  have hlink := name_ne_symlinkname (s := s) c.tm_time
  have hother : ∀ t, s.name c.tm_time ≠ s.name t → (s.openFile c).disk (s.name t) = s.disk (s.name t) := by
    intro t ht
    rw [openFile_created hc]
    show Disk.set _ _ _ (s.name t) = _
    rw [Disk.set_of_ne ht.symm, relink_of_ne (name_ne_symlinkname t), Disk.set_of_ne ht.symm]
  rw [openFile_created hc] at hother ⊢
  refine ⟨?_, ?_, ?_, ?_, ?_⟩
  · intro t ht
    rcases List.mem_append.mp ht with ht | ht
    · exact (hother t (hne t ht)).trans_ne (h.stays t ht)
    · show Disk.set _ _ _ (s.name t) ≠ none
      rw [List.mem_singleton.mp ht, Disk.set_self]
      simp
  · refine List.nodup_append.mpr ⟨h.nodup, List.nodup_singleton _, ?_⟩
    intro t ht t' ht'
    rw [List.mem_singleton.mp ht']
    rintro rfl
    exact hne _ ht rfl
  · intro t ht
    rcases List.mem_append.mp ht with ht | ht
    · exact h.fresh t ht
    · rw [List.mem_singleton.mp ht]
      exact (h.frame _ hlink hne hne_left).symm.trans hfree
  · intro t ht
    obtain ⟨hnot, hempty, hfresh⟩ := h.left t ht
    refine ⟨?_, (hother t (hne_left t ht)).trans hempty, hfresh⟩
    intro hmem
    rcases List.mem_append.mp hmem with hmem | hmem
    · exact hnot hmem
    · rw [List.mem_singleton] at hmem
      rw [hmem] at ht
      exact hne_left _ ht rfl
  · intro p hp hall hleft
    have hnew : p ≠ s.name c.tm_time := hall c.tm_time (by simp)
    have hsym : p ≠ s.symlinkname := hp
    show Disk.set _ _ _ p = disk0 p
    rw [Disk.set_of_ne hnew, relink_of_ne hsym, Disk.set_of_ne hnew]
    refine h.frame p hsym (fun t ht => hall t ?_) hleft
    simp [ht]

/-- A file that could not be deleted. -/
theorem OnDisk.leftover (h : OnDisk disk0 s) (hfree : s.disk (s.name t) = none) (errno : Errno) : OnDisk disk0 { s with
    disk := s.disk.set (s.name t) (some (.file [])), errno := errno, leftover := s.leftover ++ [t] } := by
  obtain ⟨hne, hne_left⟩ := h.ne_name hfree
  refine ⟨?_, h.nodup, h.fresh, ?_, ?_⟩
  · intro t' ht'
    show Disk.set _ _ _ (s.name t') ≠ none
    rw [Disk.set_of_ne (hne t' ht').symm]
    exact h.stays t' ht'
  · intro t' ht'
    rcases List.mem_append.mp ht' with ht' | ht'
    · obtain ⟨hnot, hempty, hfresh⟩ := h.left t' ht'
      refine ⟨hnot, ?_, hfresh⟩
      show Disk.set _ _ _ (s.name t') = _
      rw [Disk.set_of_ne (hne_left t' ht').symm]
      exact hempty
    · rw [List.mem_singleton.mp ht']
      refine ⟨fun hmem => hne t hmem rfl, Disk.set_self _ _ _, ?_⟩
      exact (h.frame _ (name_ne_symlinkname t) hne hne_left).symm.trans hfree
  · intro p hp hall hleft
    have hnew : p ≠ s.name t := hleft t (by simp)
    show Disk.set _ _ _ p = disk0 p
    rw [Disk.set_of_ne hnew]
    refine h.frame p hp hall fun t' ht' => hleft t' ?_
    simp [ht']

theorem Sim.openFile (h : Sim disk0 s w) (hs : s.stream = none) (hw : w.stream = none) (hname : s.filename ≠ [])
    (c : Creation) : Sim disk0 (s.openFile c) (w.openFile (s.result c)) := by
  obtain ⟨old, hfiles, hstream⟩ := h.files
  rw [hw] at hstream
  obtain ⟨-, rfl, hbuffer, -⟩ := hstream
  by_cases hc : s.Creates c
  · have hdisk := h.onDisk.created hc
    obtain ⟨hne, -⟩ := h.onDisk.ne_name hc.2.2
    unfold LogFiles.result
    rw [if_pos hc]
    rw [openFile_created hc] at hdisk ⊢
    refine ⟨h.filename, rfl, rfl, ⟨s.created, ?_, ?_⟩, hdisk⟩
    · refine forall₂_congr hfiles (fun t => rfl) (fun t ht => ?_) lost_of_or
      show Disk.set _ _ _ (s.name t) = _
      rw [Disk.set_of_ne (hne t ht).symm, relink_of_ne (name_ne_symlinkname t),
        Disk.set_of_ne (hne t ht).symm]
    · show LogFiles.Streams _ s.created (some ⟨.named w.closed.length, _, [], 0⟩)
      have hheader := (Carries.new (c.tm_time.headerText c.hostname) s.lost).transfer c.header
      rw [List.nil_append] at hheader
      refine .inr ⟨hname, c.tm_time, rfl, rfl, c.hostname, _, rfl, Disk.set_self _ _ _, ?_⟩
      rw [List.flatMap_nil, List.append_nil]
      exact hheader
  · unfold LogFiles.result
    rw [if_neg hc]
    have hnone : w.stream = none := hw
    rcases openFile_failed hc with hopen | ⟨hfree, -, hopen⟩
    · rw [hopen]
      refine ⟨h.filename, h.file_size, rfl, ⟨s.created, hfiles, ?_⟩, h.onDisk.rest _ _ _ _ _ _⟩
      show LogFiles.Streams _ _ w.stream
      rw [hnone]
      exact ⟨hs, rfl, hbuffer, fun hempty => absurd hempty hname⟩
    · obtain ⟨hne, -⟩ := h.onDisk.ne_name hfree
      rw [hopen]
      refine ⟨h.filename, h.file_size, rfl, ⟨s.created, ?_, ?_⟩, h.onDisk.leftover hfree _⟩
      · refine forall₂_congr hfiles (fun t => rfl) (fun t ht => ?_) id
        exact Disk.set_of_ne (hne t ht).symm _ _
      · show LogFiles.Streams _ _ w.stream
        rw [hnone]
        exact ⟨hs, rfl, hbuffer, fun hempty => absurd hempty hname⟩

theorem Sim.createFile (h : Sim disk0 s w) (c : Creation) : Sim disk0 (s.createFile c) (w.createFile (s.result c)) := by
  unfold LogFiles.createFile FileWritter.createFile
  by_cases hname : s.filename = []
  · rw [if_pos hname, if_pos (h.filename.mpr hname)]
    obtain ⟨old, hfiles, hstream⟩ := h.files
    refine ⟨h.filename, rfl, h.errno, ⟨old, hfiles, ?_⟩, h.onDisk.rest _ _ _ _ _ _⟩
    cases hw : w.stream with
    | none =>
      rw [hw] at hstream
      obtain ⟨-, hold, hbuffer, hout⟩ := hstream
      refine .inl ⟨hname, rfl, hold, ?_⟩
      show Carries s.stdout s.buffer [] s.lost
      rw [hout hname, hbuffer]
      exact Carries.new [] _
    | some f =>
      rw [hw] at hstream
      rcases hstream with ⟨-, -, hold, hout⟩ | ⟨hne, -⟩
      · exact .inl ⟨hname, rfl, hold, hout⟩
      · exact absurd hname hne
  · have hname' : w.filename ≠ "" := fun hempty => hname (h.filename.mp hempty)
    rw [if_neg hname, if_neg hname']
    have hclose := (h.resize 0).close hname c.closing
    have hresult : ({ s with file_size := 0 }.closeStream c.closing).result c = s.result c := closeStream_result _ _
    have hopen := hclose.openFile (closed_stream _) closeStream_stream (by simpa using hname) c
    rw [hresult] at hopen
    exact hopen

theorem Sim.ensure (h : Sim disk0 s w) (c : Creation) : Sim disk0 (s.ensure c) (w.ensure (s.result c)) := by
  have hstream : s.stream.isNone = w.stream.isNone := by
    cases hs : s.stream with
    | none =>
      rw [h.stream_none hs]
      rfl
    | some out =>
      cases hw : w.stream with
      | none =>
        obtain ⟨old, -, hstream⟩ := h.files
        rw [hw] at hstream
        exact absurd (hs.symm.trans hstream.1) (by simp)
      | some f => rfl
  unfold LogFiles.ensure FileWritter.ensure
  rw [hstream]
  split_ifs
  · exact h.createFile c
  · exact h

/-- What an `fwrite` puts into the file of the abstract writer are the bytes that it takes of the line. -/
theorem bytes_frags (l : Line) (r : FwriteResult) : (r.frags l).flatMap Frag.bytes = l.bytes.take (r.put l) := by
  cases r with
  | ok => simp [FwriteResult.frags, FwriteResult.put, whole, Frag.bytes]
  | enospc n => cases n <;> simp [FwriteResult.frags, FwriteResult.put, Frag.bytes]

/-- The stream is given a line. -/
theorem Sim.push (h : Sim disk0 s w) (hw : w.stream = some f) (l : Line) (r : FwriteResult) :
    Sim disk0 { s with buffer := s.buffer ++ l.bytes.take (r.put l) }
      { w with stream := some { f with body := f.body ++ r.frags l } } := by
  obtain ⟨old, hfiles, hstream⟩ := h.files
  rw [hw] at hstream
  have hbody : (f.body ++ r.frags l).flatMap Frag.bytes = f.body.flatMap Frag.bytes ++ l.bytes.take (r.put l) := by
    rw [List.flatMap_append, bytes_frags]
  refine ⟨h.filename, h.file_size, h.errno, ⟨old, hfiles, ?_⟩, h.onDisk.rest _ _ _ _ _ _⟩
  rcases hstream with ⟨hempty, hs, hold, hcarries⟩ | ⟨hne, t, hs, hold, hostname, bytes, hlen, hfile, hcarries⟩
  · refine .inl ⟨hempty, hs, hold, ?_⟩
    rw [hbody]
    exact hcarries.push _
  · refine .inr ⟨hne, t, hs, hold, hostname, bytes, hlen, hfile, ?_⟩
    rw [hbody, ← List.append_assoc]
    exact hcarries.push _

theorem Sim.write (h : Sim disk0 s w) (l : Line) (c : Creation) (r : FwriteResult) (tr : Transfer) :
    (s.write l c r tr).2 = (w.write l (s.result c) r).2 ∧ Sim disk0 (s.write l c r tr).1 (w.write l (s.result c) r).1 := by
  have hensure := h.ensure c
  unfold LogFiles.write FileWritter.write
  generalize s.ensure c = s1 at hensure ⊢
  generalize w.ensure (s.result c) = w1 at hensure ⊢
  have herrno := hensure.errno
  have hsize := hensure.file_size
  dsimp only
  cases hw : w1.stream with
  | none =>
    obtain ⟨old, -, hstream⟩ := hensure.files
    rw [hw] at hstream
    rw [hstream.1]
    exact ⟨rfl, hensure⟩
  | some f =>
    obtain ⟨out, hs⟩ := hensure.stream_some hw
    have hput := (hensure.push hw l r).drain hs tr
    have hsize' := hput.file_size
    obtain ⟨old, hfiles, hstream⟩ := hput.files
    split
    · rename_i hnone
      exact absurd (hnone.symm.trans hs) (by simp)
    rename_i out' hs'
    obtain rfl : out = out' := Option.some.inj (hs.symm.trans hs')
    dsimp only
    rw [herrno]
    split_ifs
    · exact ⟨rfl, hput.filename, hput.file_size, rfl, ⟨old, hfiles, hstream⟩, hput.onDisk.rest _ _ _ _ _ _⟩
    · refine ⟨rfl, hput.filename, ?_, rfl, ⟨old, hfiles, hstream⟩, hput.onDisk.rest _ _ _ _ _ _⟩
      exact congrArg (· + l.len) hsize'

/-- What `fdatasync` covers is not seen. -/
theorem LogFiles.Streams.synced (hs : s.Streams old (some f)) (n : Nat) : s.Streams old (some { f with synced := n }) := hs

theorem Sim.flush (h : Sim disk0 s w) (e : Errno) (tr : Transfer) : Sim disk0 (s.flush e tr) (w.flush e) := by
  unfold LogFiles.flush FileWritter.flush
  cases hs : s.stream with
  | none =>
    rw [h.stream_none hs]
    exact h
  | some out =>
    have hdrain := h.drain hs tr
    have hsome : (s.drain out tr).stream = some out := (put_stream _ _).trans hs
    obtain ⟨old, hfiles, hstream⟩ := hdrain.files
    cases hw : w.stream with
    | none =>
      rw [hw] at hstream
      exact absurd (hsome.symm.trans hstream.1) (by simp)
    | some f =>
      rw [hw] at hstream
      refine ⟨hdrain.filename, hdrain.file_size, rfl, ⟨old, hfiles, ?_⟩, hdrain.onDisk.rest _ _ _ _ _ _⟩
      dsimp only
      split_ifs
      · exact hstream.synced _
      · exact hstream

theorem Sim.rotateIfNeed (h : Sim disk0 s w) (max_file_size : Nat) (c : Creation) :
    Sim disk0 (s.rotateIfNeed max_file_size c) (w.rotateIfNeed max_file_size (s.result c)) := by
  unfold LogFiles.rotateIfNeed FileWritter.rotateIfNeed
  rw [h.file_size]
  split_ifs
  · unfold LogFiles.rotate FileWritter.rotate
    by_cases hname : s.filename = []
    · rw [if_pos hname, if_pos (h.filename.mpr hname)]
      exact h
    · rw [if_neg hname, if_neg fun hempty => hname (h.filename.mp hempty)]
      have hcreate := (h.close hname c.closing).createFile c
      rw [closeStream_result] at hcreate
      exact hcreate
  · exact h

theorem sim_call (h : Sim disk0 s w) (a : FileCall Creation) :
    (s.call a).2 = (w.call (a.map s.result)).2 ∧ Sim disk0 (s.call a).1 (w.call (a.map s.result)).1 := by
  cases a with
  | write l c r tr => exact h.write l c r tr
  | flush e tr => exact ⟨rfl, h.flush e tr⟩
  | rotateIfNeed max_file_size c => exact ⟨rfl, h.rotateIfNeed max_file_size c⟩

theorem sim_calls (h : Sim disk0 s w) (calls : List (FileCall Creation)) :
    (runBoth s w calls).1.2 = (runBoth s w calls).2.2 ∧ Sim disk0 (runBoth s w calls).1.1 (runBoth s w calls).2.1 := by
  induction calls generalizing s w with
  | nil => exact ⟨rfl, h⟩
  | cons a calls ih =>
    obtain ⟨hret, h'⟩ := sim_call h a
    obtain ⟨hrets, hrest⟩ := ih h'
    exact ⟨by unfold runBoth; simp only [hret, hrets], hrest⟩

theorem runBoth_after (s : LogFiles) (w : FileWritter) (calls : List (FileCall Creation)) :
    (runBoth s w calls).1.1 = s.after calls := by
  induction calls generalizing s w with
  | nil => rfl
  | cons a calls ih => exact ih _ _

theorem sim_new (name : String) (pid : Nat) (disk : Disk) (c : Creation) :
    Sim disk (.new (ascii name) pid disk c) (.new name ((LogFiles.begin (ascii name) pid disk).result c)) := by
  have hbegin : Sim disk (.begin (ascii name) pid disk) ⟨name, 0, none, none, 0, [], false⟩ := by
    refine ⟨?_, rfl, rfl, ⟨[], .nil, rfl, rfl, rfl, fun _ => rfl⟩, ?_⟩
    · show name = "" ↔ name.toList.map _ = []
      rw [List.map_eq_nil_iff, String.toList_eq_nil_iff]
    · exact ⟨by simp [LogFiles.begin], by simp [LogFiles.begin], by simp [LogFiles.begin], by simp [LogFiles.begin],
        fun p _ _ _ => rfl⟩
  have hcreate := hbegin.createFile c
  obtain ⟨old, hfiles, hstream⟩ := hcreate.files
  exact ⟨hcreate.filename, hcreate.file_size, rfl, ⟨old, hfiles, hstream⟩, hcreate.onDisk.rest _ _ _ _ _ _⟩

end Simulation

section Runs

variable {s : LogFiles} {c : Creation}

/-- **The files on the disk are those of `FileWritter`**: over every run of calls the two return the same values, and the
files hold the same bytes, but for those that are still in the buffer or were lost from it. -/
theorem sim_run (name : String) (pid : Nat) (disk : Disk) (c : Creation) (calls : List (FileCall Creation)) :
    let r := runBoth (.new (ascii name) pid disk c) (.new name ((LogFiles.begin (ascii name) pid disk).result c)) calls
    r.1.2 = r.2.2 ∧ Sim disk r.1.1 r.2.1 :=
  sim_calls (sim_new name pid disk c) calls

theorem onDisk_after (name : String) (pid : Nat) (disk : Disk) (c : Creation) (calls : List (FileCall Creation)) :
    OnDisk disk ((LogFiles.new (ascii name) pid disk c).after calls) := by
  have hsim := (sim_calls (sim_new name pid disk c) calls).2.onDisk
  rw [runBoth_after] at hsim
  exact hsim

/-- A path is taken by a file of the same second, by one that could not be deleted, or by what was there before. -/
theorem OnDisk.free_iff {disk0 : Disk} (h : OnDisk disk0 s) (t : Tm) :
    s.disk (s.name t) = none ↔ t ∉ s.created ∧ t ∉ s.leftover ∧ disk0 (s.name t) = none := by
  constructor
  · intro hfree
    obtain ⟨hne, hne_left⟩ := h.ne_name hfree
    refine ⟨fun ht => hne t ht rfl, fun ht => hne_left t ht rfl, ?_⟩
    rw [← h.frame _ (name_ne_symlinkname t) hne hne_left]
    exact hfree
  · rintro ⟨ht, hleft, hfree⟩
    rw [h.frame _ (name_ne_symlinkname t)]
    · exact hfree
    · rintro t' ht' heq
      rw [name_inj heq] at ht
      exact ht ht'
    · rintro t' ht' heq
      rw [name_inj heq] at hleft
      exact hleft ht'

/-- **A rotation leaves a stream exactly when the kernel allows it, there is no log file of the same second yet, and there
was none before.** -/
theorem rotate_exact (name : String) (hname : name ≠ "") (pid : Nat) (disk : Disk) (c : Creation)
    (calls : List (FileCall Creation)) (c' : Creation) :
    let s := (LogFiles.new (ascii name) pid disk c).after calls
    (s.rotate c').stream ≠ none ↔
      c'.opens ∧ c'.fdopens ∧ c'.tm_time ∉ s.created ∧ c'.tm_time ∉ s.leftover ∧ disk (s.name c'.tm_time) = none := by
  intro s
  have hdisk : OnDisk disk s := onDisk_after name pid disk c calls
  have hfilename : s.filename ≠ [] := by
    have hsame : s.filename = ascii name := by
      show ((LogFiles.new (ascii name) pid disk c).after calls).filename = _
      rw [after_filename]
      exact createFile_filename c
    rw [hsame]
    show name.toList.map _ ≠ []
    simpa using hname
  rw [rotate_stream hfilename, ← hdisk.free_iff]
  rfl

/-- A creation shortly after noon, which the kernel allows. -/
def atNoon : Creation :=
  ⟨⟨124, 4, 2, 12, 1, 3, by decide, by decide, by decide, by decide, by decide, by decide⟩, true, true, true, true, .whole,
    .whole, [], 0⟩

/-- A second later. -/
def afterNoon : Creation :=
  { atNoon with tm_time := ⟨124, 4, 2, 12, 1, 4, by decide, by decide, by decide, by decide, by decide, by decide⟩ }

/-- The constructor creates a file at noon, and a rotation in the same second closes it and leaves no stream. -/
theorem rotate_exact_noon :
    (((LogFiles.new (ascii "log") 7 (fun _ => none) atNoon).after []).rotate atNoon).stream = none := by
  have hrotate := rotate_exact "log" (by decide) 7 (fun _ => none) atNoon [] atNoon
  by_contra hne
  exact (hrotate.mp hne).2.2.1 (List.mem_singleton_self _)

end Runs

/-! ## When nothing is lost -/

section Held

variable {disk0 : Disk} {s : LogFiles} {w : FileWritter} {t : Tm} {f : LogFile}

/-- With its buffer, a file holds everything. -/
theorem LogFiles.Stored.holds {buf : List UInt8} (h : s.Stored t buf f) (hlost : s.lost = false)
    (hbuf : buf = if s.stream = some (.file (s.name t)) then s.buffer else []) : s.Holds t f := by
  obtain ⟨hostname, bytes, -, hfile, hcarries⟩ := h
  refine ⟨hostname, ?_⟩
  rw [← hcarries.complete hlost, hbuf]
  unfold LogFiles.held
  rw [hfile]
  dsimp only
  split_ifs
  · rfl
  · rw [List.append_nil]

/-- **With a file name, the files of the run hold, in the order of their creation, what those of the writer do.** -/
theorem Sim.holds (h : Sim disk0 s w) (hname : s.filename ≠ []) (hlost : s.lost = false) :
    List.Forall₂ s.Holds s.created w.files := by
  obtain ⟨old, hfiles, hstream⟩ := h.files
  -- a closed file is not that of the stream
  have hclosed : (∀ t ∈ old, s.stream ≠ some (.file (s.name t))) → List.Forall₂ s.Holds old w.closed := by
    intro hne
    refine (List.forall₂_iff_zip.mpr ⟨hfiles.length_eq, fun ht => ?_⟩)
    have hstored := (List.forall₂_iff_zip.mp hfiles).2 ht
    refine LogFiles.Stored.holds hstored hlost ?_
    rw [if_neg (hne _ (List.of_mem_zip ht).1)]
  unfold FileWritter.files
  cases hw : w.stream with
  | none =>
    rw [hw] at hstream
    obtain ⟨hs, hold, -⟩ := hstream
    rw [hold]
    simpa using hclosed fun t _ => by simp [hs]
  | some f =>
    rw [hw] at hstream
    rcases hstream with ⟨hempty, -⟩ | ⟨-, t, hs, hold, hstored⟩
    · exact absurd hempty hname
    · have hne := h.onDisk.name_ne hold
      rw [hold]
      refine List.rel_append (hclosed fun t' ht' heq => ?_) (.cons (hstored.holds hlost (if_pos hs).symm) .nil)
      rw [hs] at heq
      exact hne t' ht' (Out.file.inj (Option.some.inj heq)).symm

/-- What `fflush` writes when it succeeds. -/
theorem Sim.flush_buffer (h : Sim disk0 s w) (e : Errno) : (s.flush e .whole).buffer = [] := by
  unfold LogFiles.flush
  split
  · rename_i hs
    exact h.buffer_nil hs
  · rfl

end Held

end BeanRaft.Logger
