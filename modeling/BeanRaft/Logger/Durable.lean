import BeanRaft.Logger.Order

/-!
# BeanRaft.Logger.Durable — is a record on disk when its synchronous `write` returns?

* `FileWritter.durable`: what the files hold and an `fdatasync` of the very file has covered since.
* `SyncedReturns`: a forced `write` waits for the index of its own record, and when its wait ends, this record and
  all records pushed before it are durable.
* `NoSplit`: no rotation in the middle of a batch.  `rotate` closes the old file without an `fdatasync`, and the
  `flush` at the end of the batch syncs the new one.
* `Durable`: the invariant of the runs that meet `NoSplit` and log to a named file.
-/

namespace BeanRaft.Logger

open Lts

variable {s s' : LogWritter} {p p' : Pipe} {w : FileWritter}

/-- The fragments that an `fdatasync` of their own file has covered. -/
def FileWritter.durable (w : FileWritter) : List Frag := w.files.flatMap fun f => f.body.take f.synced

/-- The action is the call of `write` by `t` with `force_flush`. -/
def ForcedCall (s : LogWritter) (t : Tid) : Act → Prop
  | .write t' force_flush _ _ _ => t' = t ∧ force_flush = true
  | .format t' _ _ => t' = t ∧ ∃ buf, s.writers t = .formatting buf true
  | _ => False

/-- A forced `write` that is not downgraded waits for its own record, and its return finds the record, and all
before it, durable. -/
structure SyncedReturns (s : LogWritter) : Prop where
  parks : ∀ t a s', ForcedCall s t a → s.disk_full_try_times = 0 → s.step a = some s' →
    s'.writers t = .waiting s'.pushed.length
  returns : ∀ t need s', s.writers t = .waiting need → s.step (.wake t) = some s' → s'.writers t = .idle →
    need ≤ s'.pushed.length ∧ ∀ e ∈ s'.pushed.take need, wholeRecord e ∈ s'.file_writer.durable

/-- A rotation comes before the first record of a batch. -/
def NoSplit (s : LogWritter) : Act → Prop
  | .writeEntry _ _ _ => ∀ b, s.async = .batch b → b.rest ≠ [] → s.max_file_size < s.file_writer.file_size →
    b.current_flushed_logs = 0
  | _ => True

instance (s : LogWritter) : ∀ a, Decidable (NoSplit s a)
  | .writeEntry _ _ _ =>
    match h : s.async with
    | .batch b =>
      decidable_of_iff (b.rest ≠ [] → s.max_file_size < s.file_writer.file_size → b.current_flushed_logs = 0)
        ⟨fun hk b' hb => by rw [h] at hb; cases hb; exact hk, fun hk => hk b h⟩
    | .waiting | .top | .flushing _ | .relock _ | .exited => isTrue fun b hb => by rw [h] at hb; cases hb
  | .writeLog _ _ | .allocate _ | .miss _ | .retry _ | .retryMiss _ | .format _ _ _ | .write _ _ _ _ _ | .wake _
  | .spurious _ | .lock | .iterate | .flush _ _ _ | .update _ | .setLogLevel _ | .setSyncLoglevel _
  | .setFileRotateSize _ | .stop => isTrue trivial

/-! ## The calls of the file and what is durable -/

theorem durable_of_stream {f : LogFile} (h : w.stream = some f) :
    w.durable = (w.closed.flatMap fun f => f.body.take f.synced) ++ f.body.take f.synced := by
  simp [FileWritter.durable, FileWritter.files, h]

theorem durable_of_no_stream (h : w.stream = none) :
    w.durable = w.closed.flatMap fun f => f.body.take f.synced := by
  simp [FileWritter.durable, FileWritter.files, h]

theorem closeStream_durable : w.closeStream.durable = w.durable := by
  unfold FileWritter.closeStream
  split
  · rfl
  · rename_i f hf
    simp [FileWritter.durable, FileWritter.files, hf]

theorem openFile_durable (h : w.stream = none) (r : CreateResult) : (w.openFile r).durable = w.durable := by
  cases r with
  | failed e => exact (durable_of_no_stream h).trans (durable_of_no_stream h).symm
  | created n e =>
    rw [durable_of_no_stream h]
    exact (durable_of_stream rfl).trans (List.append_nil _)

theorem createFile_durable (r : CreateResult) : (w.createFile r).durable = w.durable := by
  unfold FileWritter.createFile
  split
  · cases h : w.stream with
    | none => simp [FileWritter.durable, FileWritter.files, h]
    | some f => simp [FileWritter.durable, FileWritter.files, h]
  · rw [openFile_durable closeStream_stream, closeStream_durable]
    rfl

theorem rotateIfNeed_durable (n : Nat) (r : CreateResult) : (w.rotateIfNeed n r).durable = w.durable := by
  unfold FileWritter.rotateIfNeed FileWritter.rotate
  split_ifs
  · rfl
  · rw [createFile_durable, closeStream_durable]
  · rfl

theorem ensure_durable (r : CreateResult) : (w.ensure r).durable = w.durable := by
  unfold FileWritter.ensure
  split
  · exact createFile_durable r
  · rfl

theorem write_of_no_stream {l : Line} {cr : CreateResult} {r : FwriteResult} (hs : (w.ensure cr).stream = none) :
    w.write l cr r = (w.ensure cr, false) := by
  simp only [FileWritter.write, hs]

/-- A `write` that has a file adds to it and keeps the name, the descriptor and the closed files. -/
theorem write_of_stream {l : Line} {cr : CreateResult} {r : FwriteResult} {f : LogFile}
    (hs : (w.ensure cr).stream = some f) :
    (w.write l cr r).1.stream = some { f with body := f.body ++ r.frags l } ∧
      (w.write l cr r).1.closed = (w.ensure cr).closed ∧ (w.write l cr r).1.fd = (w.ensure cr).fd ∧
      (w.write l cr r).1.filename = (w.ensure cr).filename := by
  simp only [FileWritter.write, hs]
  split_ifs <;> exact ⟨rfl, rfl, rfl, rfl⟩

theorem write_durable (l : Line) (cr : CreateResult) (r : FwriteResult) : w.durable ⊆ (w.write l cr r).1.durable := by
  rw [← ensure_durable (w := w) cr]
  cases hs : (w.ensure cr).stream with
  | none => rw [write_of_no_stream hs]; exact fun x hx => hx
  | some f =>
    obtain ⟨hst, hcl, -, -⟩ := write_of_stream (l := l) (r := r) hs
    have htake : f.body.take f.synced ⊆ (f.body ++ r.frags l).take f.synced := by
      rw [List.take_append]
      exact List.subset_append_left _ _
    rw [durable_of_stream hs, durable_of_stream hst, hcl]
    intro x hx
    exact List.mem_append.mpr ((List.mem_append.mp hx).imp id fun h => htake h)

theorem flush_durable (e : Errno) : w.durable ⊆ (w.flush e).durable := by
  unfold FileWritter.flush
  split
  · exact fun x hx => hx
  · rename_i f hf
    intro x hx
    rw [durable_of_stream hf] at hx
    rw [durable_of_stream rfl]
    refine List.mem_append.mpr ((List.mem_append.mp hx).imp id fun h => ?_)
    split
    · rw [List.take_length]
      exact List.mem_of_mem_take h
    · exact h

/-! ## The open file -/

/-- The log has a name, and `fd` is the descriptor of the open file. -/
def FileWritter.Named (w : FileWritter) : Prop := w.filename ≠ "" ∧ ∀ f, w.stream = some f → w.fd = some f.id

/-- The open file holds `x`. -/
def FileWritter.InStream (w : FileWritter) (x : Frag) : Prop := ∃ f, w.stream = some f ∧ x ∈ f.body

theorem createFile_named (h : w.filename ≠ "") (r : CreateResult) : (w.createFile r).Named := by
  unfold FileWritter.createFile
  rw [if_neg h]
  have hn : ({ w with file_size := 0 } : FileWritter).closeStream.filename ≠ "" := by
    unfold FileWritter.closeStream
    split <;> exact h
  cases r with
  | failed e =>
    refine ⟨hn, fun f hf => ?_⟩
    have hs : ({ w with file_size := 0 } : FileWritter).closeStream.stream = some f := hf
    rw [closeStream_stream] at hs
    simp at hs
  | created n e =>
    refine ⟨hn, fun f hf => ?_⟩
    obtain rfl := Option.some.inj hf
    rfl

theorem closeStream_named (h : w.Named) : w.closeStream.Named := by
  obtain ⟨hn, -⟩ := h
  refine ⟨?_, fun f hf => ?_⟩
  · unfold FileWritter.closeStream
    split <;> exact hn
  · rw [closeStream_stream] at hf
    simp at hf

theorem rotateIfNeed_named (h : w.Named) (n : Nat) (r : CreateResult) : (w.rotateIfNeed n r).Named := by
  unfold FileWritter.rotateIfNeed FileWritter.rotate
  split_ifs
  · exact h
  · exact createFile_named (closeStream_named h).1 r
  · exact h

theorem ensure_named (h : w.Named) (r : CreateResult) : (w.ensure r).Named := by
  unfold FileWritter.ensure
  split
  · exact createFile_named h.1 r
  · exact h

theorem write_named (h : w.Named) (l : Line) (cr : CreateResult) (r : FwriteResult) : (w.write l cr r).1.Named := by
  have he := ensure_named h cr
  cases hs : (w.ensure cr).stream with
  | none => rw [write_of_no_stream hs]; exact he
  | some f =>
    obtain ⟨hst, -, hfd, hname⟩ := write_of_stream (l := l) (r := r) hs
    refine ⟨hname ▸ he.1, fun g hg => ?_⟩
    obtain rfl := Option.some.inj (hst.symm.trans hg)
    exact hfd.trans (he.2 f hs)

theorem flush_named (h : w.Named) (e : Errno) : (w.flush e).Named := by
  obtain ⟨hn, hfd⟩ := h
  unfold FileWritter.flush
  split
  · exact ⟨hn, hfd⟩
  · rename_i f hf
    refine ⟨hn, fun g hg => ?_⟩
    obtain rfl := Option.some.inj hg
    split <;> exact hfd f hf

theorem write_inStream {x : Frag} (h : w.InStream x) (l : Line) (cr : CreateResult) (r : FwriteResult) :
    (w.write l cr r).1.InStream x := by
  obtain ⟨f, hf, hx⟩ := h
  have hs : (w.ensure cr).stream = some f := by simp [FileWritter.ensure, hf]
  exact ⟨_, (write_of_stream hs).1, List.mem_append_left _ hx⟩

/-- A record that was accepted is in the open file. -/
theorem write_true_inStream {l : Line} {cr : CreateResult} {r : FwriteResult} (h : (w.write l cr r).2 = true) :
    (w.write l cr r).1.InStream (whole l) := by
  obtain ⟨rfl, -⟩ := write_true h
  cases hs : (w.ensure cr).stream with
  | none =>
    rw [write_of_no_stream hs] at h
    simp at h
  | some f => exact ⟨_, (write_of_stream hs).1, List.mem_append_right _ (List.mem_singleton.mpr rfl)⟩

/-- `flush` makes durable what the open file holds. -/
theorem flush_inStream (hn : w.Named) {x : Frag} (h : w.InStream x) (e : Errno) : x ∈ (w.flush e).durable := by
  obtain ⟨f, hf, hx⟩ := h
  have hfd := hn.2 f hf
  unfold FileWritter.flush
  rw [hf]
  dsimp only
  rw [if_pos hfd, durable_of_stream rfl]
  refine List.mem_append_right _ ?_
  rw [List.take_length]
  exact hx

/-! ## The invariant -/

/-- Where the written records of the running batch are. -/
def AsyncPc.Stored (w : FileWritter) : AsyncPc → Prop
  | batch b | flushing b => ∀ e ∈ b.written, w.InStream (wholeRecord e)
  | relock b => ∀ e ∈ b.written, wholeRecord e ∈ w.durable
  | _ => True

/-- What counts as flushed is durable, and what the batch has written is in the open file until it is durable. -/
structure Durable (p : Pipe) : Prop where
  named : p.file_writer.Named
  flushed : ∀ e ∈ p.pushed.take p.flushed_log_index, wholeRecord e ∈ p.file_writer.durable
  batch : p.async.Stored p.file_writer

/-- The file of the next `fwrite` holds what the batch has written: with `NoSplit` the file is the same as before,
or the batch has written nothing. -/
theorem rotateIfNeed_inStream (hi : Accounted p) (h : Durable p) {b : Batch} (hb : p.async = .batch b)
    (hok : p.max_file_size < p.file_writer.file_size → b.current_flushed_logs = 0) (rot : CreateResult) {e : Entry}
    (he : e ∈ b.written) : (p.file_writer.rotateIfNeed p.max_file_size rot).InStream (wholeRecord e) := by
  have hst := h.batch
  have hc := hi.counted
  rw [hb] at hst hc
  by_cases hsz : p.max_file_size < p.file_writer.file_size
  · have hz := hok hsz
    rw [hc.1, List.length_eq_zero_iff] at hz
    rw [hz] at he
    simp at he
  · have hsame : p.file_writer.rotateIfNeed p.max_file_size rot = p.file_writer := by
      unfold FileWritter.rotateIfNeed
      exact if_neg hsz
    rw [hsame]
    exact hst e he

theorem writeCall_durable (h : Durable p) (e : Entry) (rot cr : CreateResult) (fw : FwriteResult) :
    (p.writeCall e rot cr fw).1.Named ∧
      ∀ x ∈ p.pushed.take p.flushed_log_index, wholeRecord x ∈ (p.writeCall e rot cr fw).1.durable := by
  refine ⟨write_named (rotateIfNeed_named h.named _ _) _ _ _, fun x hx => ?_⟩
  apply write_durable
  rw [rotateIfNeed_durable]
  exact h.flushed x hx

/-- At the end of a batch its written records join the flushed ones. -/
theorem durable_update (hi : Accounted p) (h : Durable p) {b : Batch} (hb : p.async = .relock b) {e : Entry}
    (he : e ∈ p.pushed.take (p.flushed_log_index + b.current_flushed_logs)) :
    wholeRecord e ∈ p.file_writer.durable := by
  have hst := h.batch
  have hc := hi.counted
  have hq := hi.queue
  rw [hb] at hst hc hq
  rw [List.take_add, hq, hc.1] at he
  have hw : ((AsyncPc.relock b).table ++ p.memtable).take b.written.length = b.written := by
    show ((b.written ++ b.rest) ++ p.memtable).take _ = _
    rw [List.append_assoc, List.take_left]
  rw [hw] at he
  rcases List.mem_append.mp he with he | he
  · exact h.flushed e he
  · exact hst e he

theorem durable_step {a : Act} (hi : Accounted p) (h : Durable p) (hs : PipeStep p a p')
    (hok : ∀ rot cr fw b, a = .writeEntry rot cr fw → p.async = .batch b → b.rest ≠ [] →
      p.max_file_size < p.file_writer.file_size → b.current_flushed_logs = 0) : Durable p' := by
  obtain ⟨hn, hf, hst⟩ := h
  cases hs with
  | stutter => exact ⟨hn, hf, hst⟩
  | push e he =>
    refine ⟨hn, fun x hx => ?_, hst⟩
    dsimp only at hx
    rw [List.take_append_of_le_length hi.le] at hx
    exact hf x hx
  | resize n => exact ⟨hn, hf, hst⟩
  | lock => exact ⟨hn, hf, trivial⟩
  | park => exact ⟨hn, hf, trivial⟩
  | exit => exact ⟨hn, hf, trivial⟩
  | swap => exact ⟨hn, hf, fun e he => absurd he List.not_mem_nil⟩
  | done b h1 =>
    rw [h1] at hst
    exact ⟨hn, hf, hst⟩
  | refused b e rest h1 hr _ _ =>
    have hd := writeCall_durable ⟨hn, hf, hst⟩ e
    refine ⟨(hd _ _ _).1, (hd _ _ _).2, fun x hx => write_inStream ?_ _ _ _⟩
    exact rotateIfNeed_inStream hi ⟨hn, hf, hst⟩ h1 (hok _ _ _ b rfl h1 (by simp [hr])) _ hx
  | written b e rest h1 hr hw =>
    have hd := writeCall_durable ⟨hn, hf, hst⟩ e
    refine ⟨(hd _ _ _).1, (hd _ _ _).2, fun x hx => ?_⟩
    rcases List.mem_append.mp hx with hx | hx
    · exact write_inStream
        (rotateIfNeed_inStream hi ⟨hn, hf, hst⟩ h1 (hok _ _ _ b rfl h1 (by simp [hr])) _ hx) _ _ _
    · obtain rfl := List.mem_singleton.mp hx
      exact write_true_inStream hw
  | flush b errno h1 =>
    rw [h1] at hst
    exact ⟨flush_named hn _, fun x hx => flush_durable _ (hf x hx), fun x hx => flush_inStream hn (hst x hx) _⟩
  | update b h1 => exact ⟨hn, fun x hx => durable_update hi ⟨hn, hf, hst⟩ h1 hx, trivial⟩

theorem durable_new {filename : String} (h : filename ≠ "") (r : CreateResult) (n : Nat) :
    Durable (LogWritter.new filename r n).pipe := by
  have hn := createFile_named (w := ⟨filename, 0, none, none, 0, [], false⟩) h r
  exact ⟨hn, fun e he => absurd he (by simp [LogWritter.pipe, LogWritter.new]), trivial⟩

/-! ## The property -/

theorem waiting_after_write (hi : Accounted s.pipe) {t : Tid} {m : Nat} {text : Text} {x : Waiter}
    (hd : s.disk_full_try_times = 0) (h : s.write t true m text x = some s') :
    s'.writers t = .waiting s'.pushed.length := by
  have hlen : s.written_log_index = s.pushed.length := hi.written
  have hle : s.flushed_log_index ≤ s.pushed.length := hi.le
  rcases write_cases h with ⟨hpos, -⟩ | ⟨-, rfl⟩ | ⟨hf, -⟩
  · omega
  · rcases waitLoop_cases _ t _ with ⟨-, hw⟩ | ⟨hge, -⟩
    · rw [hw]
      show Function.update _ t _ t = _
      rw [Function.update_self]
      show WriterPc.waiting (s.written_log_index + 1) = .waiting (s.pushed ++ [_]).length
      rw [hlen, List.length_append, List.length_singleton]
    · have : s.written_log_index + 1 ≤ s.flushed_log_index := hge
      omega
  · simp at hf

theorem syncedReturns_of_durable (hi : Accounted s.pipe) (h : Durable s.pipe) : SyncedReturns s where
  parks t a s' hc hd hs := by
    cases step_did hs <;> try exact absurd hc id
    case format buf f text x _ hpc hw =>
      obtain ⟨rfl, buf', hb⟩ := hc
      rw [hpc] at hb
      obtain ⟨rfl, rfl⟩ := WriterPc.formatting.inj hb
      exact waiting_after_write hi hd hw
    case write f m text x _ hpc hw =>
      obtain ⟨rfl, rfl⟩ := hc
      exact waiting_after_write hi hd hw
  returns t need s' hw hs hidle := by
    cases step_did hs with
    | @wake _ need' hmu hpc hcv =>
      rw [hw] at hpc
      obtain rfl := WriterPc.waiting.inj hpc
      rcases waitLoop_cases s t need with ⟨-, hp⟩ | ⟨hle, hp⟩
      · rw [hp] at hidle
        have : Function.update s.writers t (.waiting need) t = .idle := hidle
        rw [Function.update_self] at this
        simp at this
      · have hpipe : (s.waitLoop t need).pipe = s.pipe := waitLoop_pipe t need
        have hpush : (s.waitLoop t need).pushed = s.pushed := congrArg Pipe.pushed hpipe
        have hfile : (s.waitLoop t need).file_writer = s.file_writer := congrArg Pipe.file_writer hpipe
        rw [hpush, hfile]
        refine ⟨hle.trans hi.le, fun e he => h.flushed e ?_⟩
        exact (List.take_subset_take_left _ hle) he

/-- **Synchronous records are durable on return**, in every run that logs to a named file and rotates it only
before the first record of a batch, whatever the calls of the file return. -/
theorem syncedReturns_of_noSplit {filename : String} (hname : filename ≠ "") (r : CreateResult) (n : Nat)
    (acts : List Act) (hok : StepsOk logger NoSplit (.new filename r n) acts) :
    Always logger SyncedReturns (.new filename r n) acts := by
  refine always_of_stepsOk (I := fun s => Reach logger s ∧ Durable s.pipe) ?_ ?_
    ⟨.init ⟨filename, r, n, rfl⟩, durable_new hname r n⟩ hok
  · rintro s ⟨hr, hd⟩
    exact syncedReturns_of_durable (reach_accounted hr) hd
  · rintro s a s' ⟨hr, hd⟩ hns hs
    refine ⟨hr.step hs, durable_step (reach_accounted hr) hd (step_pipe (misslog_len_eq_zero hr) hs) ?_⟩
    rintro rot cr fw b rfl hb
    exact hns b hb

/-- A turn of the batch loop in which every call succeeds. -/
def entryWritten : Act := .writeEntry (.created 100 0) (.created 100 0) .ok

/-- Two records, the second forced, go through one batch; the forced call returns at the end. -/
def twoRecords : List Act :=
  [.write 0 false 7 ['a'] .async, .write 1 true 8 ['b'] .async, .lock, .iterate, entryWritten, entryWritten,
    entryWritten, .flush (.created 100 0) .ok 0, .update (.writer 1), .iterate]

theorem twoRecords_synced : Always logger SyncedReturns start (twoRecords ++ [.wake 1]) :=
  syncedReturns_of_noSplit (by decide) _ _ _ (by decide +kernel)

/-- With a rotation before each record, the file of the first one is closed and never synced. -/
theorem straddled_not_synced : ¬ Always logger SyncedReturns start (.setFileRotateSize 0 :: twoRecords) := by
  intro h
  have hrun : ((logger.exec start (.setFileRotateSize 0 :: twoRecords)).bind fun s =>
      (s.step (.wake 1)).map fun s' => (s, s')).map
        (fun ss => (ss.1.writers 1, ss.2.writers 1, ss.2.pushed, ss.2.file_writer.durable)) =
      some (.waiting 2, .idle, [⟨7, ['a'], 0⟩, ⟨8, ['b'], 1⟩], [wholeRecord ⟨8, ['b'], 1⟩]) := by
    decide +kernel
  obtain ⟨⟨s, s'⟩, hss, hv⟩ := Option.map_eq_some_iff.mp hrun
  obtain ⟨s1, hexec, hstep⟩ := Option.bind_eq_some_iff.mp hss
  obtain ⟨s2, hwake, heq⟩ := Option.map_eq_some_iff.mp hstep
  cases heq
  simp only [Prod.mk.injEq] at hv
  obtain ⟨hwait, hidle, hpush, hdur⟩ := hv
  obtain ⟨-, hall⟩ := (h.exec hexec).returns 1 2 s' hwait hwake hidle
  have hmem := hall ⟨7, ['a'], 0⟩ (by rw [hpush]; decide)
  rw [hdur] at hmem
  revert hmem
  decide

end BeanRaft.Logger
