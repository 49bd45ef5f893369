import BeanRaft.Logger.Pipe

/-!
# BeanRaft.Logger.Order — do the log files hold the records once and in order?

* `InOrder`: the fragments in the files are the first `k` pushed records, each whole, and at most a cut one after
  them.  `ExactlyOnce` adds that the files are complete when asyncRun exits.
* `RewriteFree`: no `fwrite` of a record puts anything into a file after one that did and was answered by false; the
  headers of new files do not count.  `write` answers by `errno` alone, so this happens after an `fwrite` cut short, and
  after a whole one while `errno` still is `ENOSPC` from an earlier failure.
* `Ordered`: the invariant of the runs that are `RewriteFree`.  `exactlyOnce_iff`: the condition is exact.
-/

namespace BeanRaft.Logger

open Lts

variable {s s' : LogWritter} {p p' : Pipe}

/-- A record that is completely in a file. -/
def wholeRecord (e : Entry) : Frag := whole (.record e)

def Line.isRecord : Line → Bool
  | record _ => true
  | report _ => false

/-- What the log files hold of records, in the order of the creation of the files and without their headers. -/
def LogWritter.records (s : LogWritter) : List Frag := s.file_writer.content.filter fun f => f.line.isRecord

/-- A prefix of the pushed records, each whole, and after it at most a part of the next one. -/
def InOrder (fs : List Frag) (pushed : List Entry) : Prop :=
  ∃ k, fs = (pushed.take k).map wholeRecord ∨
    ∃ e n, pushed[k]? = some e ∧ n < e.message_len ∧ fs = (pushed.take k).map wholeRecord ++ [⟨.record e, n⟩]

/-- The records are in order, and complete if asyncRun exits next. -/
def ExactlyOnce (s : LogWritter) : Prop :=
  InOrder s.records s.pushed ∧
    ∀ s', s.step .iterate = some s' → s'.async = .exited → s'.records = s'.pushed.map wholeRecord

/-- Nothing of a record is put into a file after an `fwrite` that put something and was answered by false. -/
def RewriteFree (s : LogWritter) : Act → Prop
  | .writeEntry rot cr fw => ∀ b e rest, s.async = .batch b → b.rest = e :: rest →
      (s.file_writer.rotateIfNeed s.max_file_size rot).puts (.record e) cr fw = true → s.file_writer.spilled = false
  | _ => True

/-! ## Records that are in order are distinct -/

theorem InOrder.seqs {fs : List Frag} {pushed : List Entry} (h : InOrder fs pushed) :
    ∃ k, fs.map Frag.line = (pushed.take k).map Line.record := by
  obtain ⟨k, rfl | ⟨e, n, he, -, rfl⟩⟩ := h
  · exact ⟨k, by simp [wholeRecord, whole, Function.comp_def]⟩
  · refine ⟨k + 1, ?_⟩
    rw [List.take_add_one, he]
    simp [wholeRecord, whole, Function.comp_def]

theorem InOrder.nodup {fs : List Frag} {pushed : List Entry} (h : InOrder fs pushed) (hp : pushed.Nodup) :
    (fs.map Frag.line).Nodup := by
  obtain ⟨k, hk⟩ := h.seqs
  rw [hk]
  refine (hp.sublist (List.take_sublist _ _)).map ?_
  intro a b hab
  exact Line.record.inj hab

theorem Accounted.nodup (hi : Accounted p) : p.pushed.Nodup := by
  refine List.Nodup.of_map Entry.seq ?_
  rw [hi.seqs]
  exact List.nodup_range

/-! ## The invariant -/

/-- The number of the records that `FileWritter::write` has accepted. -/
def Pipe.accepted (p : Pipe) : Nat := p.flushed_log_index + p.async.written.length

theorem Accounted.drop_accepted (hi : Accounted p) : p.pushed.drop p.accepted = p.async.rest ++ p.memtable := by
  unfold Pipe.accepted
  rw [← List.drop_drop, hi.queue, AsyncPc.table_eq, List.append_assoc, List.drop_left]

theorem Accounted.accepted_le (hi : Accounted p) : p.accepted ≤ p.pushed.length := by
  have hl := congrArg List.length hi.queue
  rw [AsyncPc.table_eq] at hl
  have := hi.le
  unfold Pipe.accepted
  simp only [List.length_drop, List.length_append] at hl
  omega

/-- The batch loop handles the first record that was not accepted. -/
theorem Accounted.next (hi : Accounted p) {b : Batch} {e : Entry} {rest : List Entry} (h : p.async = .batch b)
    (hr : b.rest = e :: rest) : p.pushed[p.accepted]? = some e := by
  have hd := hi.drop_accepted
  have hrest : p.async.rest = e :: rest := by rw [h]; exact hr
  rw [hrest] at hd
  have h0 : (p.pushed.drop p.accepted)[0]? = some e := by rw [hd]; rfl
  rwa [List.getElem?_drop, Nat.add_zero] at h0

/-- The files hold the accepted records; the next one is there too, whole or cut, when an `fwrite` of it was
answered by false. -/
def Ordered (p : Pipe) : Prop :=
  (p.file_writer.spilled = false ∧ p.file_writer.content = (p.pushed.take p.accepted).map wholeRecord) ∨
  (p.file_writer.spilled = true ∧ ∃ e n, p.pushed[p.accepted]? = some e ∧ n ≤ e.message_len ∧
    p.file_writer.content = (p.pushed.take p.accepted).map wholeRecord ++ [⟨.record e, n⟩])

/-- A change that keeps the content, the pushes and what was accepted. -/
theorem Ordered.frame (h : Ordered p) (hc : p'.file_writer.content = p.file_writer.content)
    (hs : p'.file_writer.spilled = p.file_writer.spilled) (hp : p'.pushed = p.pushed)
    (ha : p'.accepted = p.accepted) : Ordered p' := by
  unfold Ordered
  rw [hc, hs, hp, ha]
  exact h

theorem ordered_push (hi : Accounted p) (h : Ordered p) {e : Entry} {m n k : Nat} {l : List Entry} :
    Ordered ⟨p.pushed ++ [e], l, m, p.flushed_log_index, n, p.async, p.file_writer, k⟩ := by
  have hle := hi.accepted_le
  have htake : (p.pushed ++ [e]).take p.accepted = p.pushed.take p.accepted := List.take_append_of_le_length hle
  rcases h with ⟨hs, hc⟩ | ⟨hs, e', n', he, hn, hc⟩
  · exact .inl ⟨hs, by rw [hc, ← htake]; rfl⟩
  · refine .inr ⟨hs, e', n', ?_, hn, by rw [hc, ← htake]; rfl⟩
    obtain ⟨hlt, -⟩ := List.getElem?_eq_some_iff.mp he
    show (p.pushed ++ [e])[p.accepted]? = some e'
    rw [List.getElem?_append_left hlt, he]

/-- What a failed `fwrite` leaves of a record: nothing, or a part of it. -/
theorem frags_cases {l : Line} {r : FwriteResult} (hfit : r.Fits l) :
    r.frags l = [] ∨ ∃ n, n ≤ l.len ∧ r.frags l = [⟨l, n⟩] := by
  cases r with
  | ok => exact .inr ⟨l.len, le_rfl, rfl⟩
  | enospc n =>
    cases n with
    | zero => exact .inl rfl
    | succ n =>
      have hlt : n + 1 < l.len := hfit
      exact .inr ⟨n + 1, by omega, rfl⟩

theorem ordered_refused (hi : Accounted p) (h : Ordered p) {b : Batch} {e : Entry} {rest : List Entry}
    {rot cr : CreateResult} {fw : FwriteResult} (hb : p.async = .batch b) (hr : b.rest = e :: rest)
    (hfit : fw.Fits (.record e)) (hw : (p.writeCall e rot cr fw).2 = false)
    (hok : (p.file_writer.rotateIfNeed p.max_file_size rot).puts (.record e) cr fw = true →
      p.file_writer.spilled = false) :
    Ordered { p with file_writer := (p.writeCall e rot cr fw).1, async := .flushing b } := by
  have hacc : ({ p with file_writer := (p.writeCall e rot cr fw).1, async := .flushing b } : Pipe).accepted =
      p.accepted := by
    unfold Pipe.accepted
    rw [hb]
    rfl
  have hcont := write_content (w := p.file_writer.rotateIfNeed p.max_file_size rot) (.record e) cr fw
  have hspill := write_false hw
  rw [rotateIfNeed_content] at hcont
  rw [rotateIfNeed_spilled] at hspill
  cases hput : (p.file_writer.rotateIfNeed p.max_file_size rot).puts (.record e) cr fw with
  | false =>
    rw [hput, Bool.or_false] at hspill
    rw [hput, if_neg Bool.false_ne_true, List.append_nil] at hcont
    exact h.frame hcont hspill rfl hacc
  | true =>
    rw [hput, if_pos rfl] at hcont
    rw [hput, Bool.or_true] at hspill
    rcases h with ⟨-, hc⟩ | ⟨hs, -⟩
    · rcases frags_cases hfit with hf | ⟨n, hn, hf⟩
      · simp [FileWritter.puts, hf] at hput
      · refine .inr ⟨hspill, e, n, by rw [hacc]; exact hi.next hb hr, hn, ?_⟩
        rw [hacc, ← hf, ← hc]
        exact hcont
    · rw [hok hput] at hs
      simp at hs

theorem ordered_written (hi : Accounted p) (h : Ordered p) {b : Batch} {e : Entry} {rest : List Entry}
    {rot cr : CreateResult} {fw : FwriteResult} (hb : p.async = .batch b) (hr : b.rest = e :: rest)
    (hw : (p.writeCall e rot cr fw).2 = true)
    (hok : (p.file_writer.rotateIfNeed p.max_file_size rot).puts (.record e) cr fw = true →
      p.file_writer.spilled = false) :
    Ordered
      { p with
        file_writer := (p.writeCall e rot cr fw).1
        async := .batch ⟨b.written ++ [e], rest, b.current_flushed_logs + 1,
          b.current_written_size + e.message_len⟩ } := by
  obtain ⟨-, hput, hspill, hcont⟩ := write_true hw
  rw [rotateIfNeed_content] at hcont
  rw [rotateIfNeed_spilled] at hspill
  have hs := hok hput
  rcases h with ⟨-, hc⟩ | ⟨hs', -⟩
  · refine .inl ⟨hspill.trans hs, ?_⟩
    have hacc : p.flushed_log_index + (b.written ++ [e]).length = p.accepted + 1 := by
      unfold Pipe.accepted
      rw [hb, List.length_append]
      rfl
    show _ = (p.pushed.take (p.flushed_log_index + (b.written ++ [e]).length)).map wholeRecord
    rw [hacc, List.take_add_one, hi.next hb hr, List.map_append, ← hc]
    exact hcont
  · rw [hs] at hs'
    simp at hs'

theorem ordered_step {a : Act} (hi : Accounted p) (h : Ordered p) (hs : PipeStep p a p')
    (hok : ∀ rot cr fw b e rest, a = .writeEntry rot cr fw → p.async = .batch b → b.rest = e :: rest →
      (p.file_writer.rotateIfNeed p.max_file_size rot).puts (.record e) cr fw = true →
      p.file_writer.spilled = false) : Ordered p' := by
  -- the accepted records stay the same while the batch moves on without an `fwrite`
  have move : ∀ {pc : AsyncPc} {m : List Entry}, pc.written = p.async.written →
      Ordered { p with async := pc, memtable := m } := fun hw =>
    h.frame rfl rfl rfl (by unfold Pipe.accepted; rw [← hw])
  cases hs with
  | stutter => exact h
  | push e he => exact ordered_push hi h
  | resize n => exact h.frame rfl rfl rfl rfl
  | lock h1 => exact move (by rw [h1]; rfl)
  | park h1 => exact move (by rw [h1]; rfl)
  | exit h1 => exact move (by rw [h1]; rfl)
  | swap h1 => exact move (by rw [h1]; rfl)
  | done b h1 => exact move (by rw [h1]; rfl)
  | refused b e rest h1 hr hfit hw => exact ordered_refused hi h h1 hr hfit hw (hok _ _ _ _ _ _ rfl h1 hr)
  | written b e rest h1 hr hw => exact ordered_written hi h h1 hr hw (hok _ _ _ _ _ _ rfl h1 hr)
  | flush b errno h1 =>
    exact h.frame (flush_content _) (flush_spilled _) rfl (by unfold Pipe.accepted; rw [h1]; rfl)
  | update b h1 =>
    refine h.frame rfl rfl rfl ?_
    have hc := hi.counted
    rw [h1] at hc
    unfold Pipe.accepted
    rw [h1, hc.1]
    rfl

/-! ## The property -/

theorem records_of_content {l : List Entry} {f : List Frag}
    (h : s.file_writer.content = l.map wholeRecord ++ f) (hf : ∀ x ∈ f, x.line.isRecord = true) :
    s.records = l.map wholeRecord ++ f := by
  unfold LogWritter.records
  rw [h]
  refine List.filter_eq_self.mpr fun x hx => ?_
  rcases List.mem_append.mp hx with hx | hx
  · obtain ⟨e, -, rfl⟩ := List.mem_map.mp hx
    rfl
  · exact hf x hx

theorem inOrder_of_ordered (h : Ordered s.pipe) : InOrder s.records s.pushed := by
  rcases h with ⟨-, hc⟩ | ⟨-, e, n, he, hn, hc⟩
  · refine ⟨s.pipe.accepted, .inl ?_⟩
    rw [records_of_content (f := []) (by rw [List.append_nil]; exact hc) (by simp), List.append_nil]
    rfl
  · have hrec := records_of_content hc (by simp [Line.isRecord])
    rcases Nat.lt_or_eq_of_le hn with hlt | heq
    · exact ⟨s.pipe.accepted, .inr ⟨e, n, he, hlt, hrec⟩⟩
    · refine ⟨s.pipe.accepted + 1, .inl ?_⟩
      have he' : s.pushed[s.pipe.accepted]? = some e := he
      rw [hrec, List.take_add_one, he', heq, List.map_append]
      rfl

/-- asyncRun exits with an empty queue, so everything was accepted. -/
theorem complete_of_exit (hi : Accounted s.pipe) (h : Ordered s.pipe) (hs : s.step .iterate = some s')
    (he : s'.async = .exited) : s'.records = s'.pushed.map wholeRecord := by
  have hd := hi.drop_accepted
  cases step_did hs with
  | iterate hpc =>
    rcases iterate_cases s with ⟨-, -, h'⟩ | ⟨-, -, -, h'⟩ | ⟨-, hm, h'⟩ | ⟨-, h'⟩ <;> rw [h'] at he ⊢
    · simp at he
    · rw [show s.async = .top from hpc] at he
      simp at he
    · have hnil : s.pushed.drop s.pipe.accepted = [] := by
        have hq : s.pushed.drop s.pipe.accepted = s.async.rest ++ s.memtable := hd
        rw [hq, hpc, hm]
        rfl
      have hlen := List.drop_eq_nil_iff.mp hnil
      rcases h with ⟨-, hc⟩ | ⟨-, e, n, hx, -⟩
      · have hc' : s.file_writer.content = s.pushed.map wholeRecord ++ [] := by
          rw [List.append_nil, ← List.take_of_length_le hlen]
          exact hc
        rw [← List.append_nil (s.pushed.map wholeRecord)]
        exact records_of_content (s := { s with async := .exited }) hc' (by simp)
      · obtain ⟨hlt, -⟩ := List.getElem?_eq_some_iff.mp hx
        exact absurd hlt (Nat.not_lt.mpr hlen)
    · simp at he

/-- A second `fwrite` of a record puts it into the files twice. -/
theorem not_inOrder_step {a : Act} (hr : Reach logger s) (h : Ordered s.pipe) (hno : ¬ RewriteFree s a)
    (hs : s.step a = some s') : ¬ InOrder s'.records s'.pushed := by
  have hi := reach_accounted hr
  have hi' : Accounted s'.pipe := reach_accounted (hr.step hs)
  cases a <;> try exact absurd trivial hno
  rename_i rot cr fw
  simp only [RewriteFree, not_forall] at hno
  obtain ⟨b, e, rest, hb, hrest, hput, hsp⟩ := hno
  rw [Bool.not_eq_false] at hsp
  rcases h with ⟨hs0, -⟩ | ⟨-, e', n, he, -, hc⟩
  · exact absurd (hs0.symm.trans hsp) Bool.false_ne_true
  have hee : e' = e := Option.some.inj (he.symm.trans (hi.next hb hrest))
  subst hee
  have hcont : s'.file_writer.content = s.file_writer.content ++ fw.frags (.record e') := by
    have hw := write_content (w := s.file_writer.rotateIfNeed s.max_file_size rot) (.record e') cr fw
    rw [rotateIfNeed_content, if_pos hput] at hw
    cases step_did hs with
    | @writeEntry b' _ _ _ _ hpc hwe =>
      rw [hb] at hpc
      cases hpc
      rcases writeEntry_cases hwe with ⟨hr', -⟩ | ⟨e'', rest', hr', -, w, ⟨hw', rfl⟩ | ⟨hw', rfl⟩⟩
      · rw [hrest] at hr'
        simp at hr'
      · rw [hrest] at hr'
        cases hr'
        rw [hw'] at hw
        exact hw
      · rw [hrest] at hr'
        cases hr'
        rw [hw'] at hw
        exact hw
  intro hin
  have hnd := hin.nodup hi'.nodup
  have hfrag : ∃ m fs, fw.frags (.record e') = ⟨.record e', m⟩ :: fs := by
    cases fw with
    | ok => exact ⟨_, _, rfl⟩
    | enospc k =>
      cases k with
      | zero => simp [FileWritter.puts, FwriteResult.frags] at hput
      | succ k => exact ⟨_, _, rfl⟩
  obtain ⟨m, fs, hf⟩ := hfrag
  have hcs : s.file_writer.content = (s.pushed.take s.pipe.accepted).map wholeRecord ++ [⟨.record e', n⟩] := hc
  unfold LogWritter.records at hnd
  rw [hcont, hcs, hf] at hnd
  simp [Line.isRecord, List.nodup_append] at hnd

theorem ordered_new (filename : String) (r : CreateResult) (n : Nat) : Ordered (LogWritter.new filename r n).pipe := by
  refine .inl ⟨?_, ?_⟩
  · show (FileWritter.createFile _ r).spilled = false
    rw [createFile_spilled]
  · show (FileWritter.createFile _ r).content = []
    rw [createFile_content]
    rfl

/-- **When the log files hold every record once and in order**: in every state of a run, and at the exit of
asyncRun, if and only if no `fwrite` puts anything into a file after one that did and was answered by false. -/
theorem exactlyOnce_iff (filename : String) (r : CreateResult) (n : Nat) (acts : List Act) :
    Always logger ExactlyOnce (.new filename r n) acts ↔ StepsOk logger RewriteFree (.new filename r n) acts := by
  refine always_iff_stepsOk (I := fun s => Reach logger s ∧ Ordered s.pipe) ?_ ?_ ?_
    ⟨.init ⟨filename, r, n, rfl⟩, ordered_new filename r n⟩ acts
  · rintro s ⟨hr, ho⟩
    exact ⟨inOrder_of_ordered ho, fun s' hs he => complete_of_exit (reach_accounted hr) ho hs he⟩
  · rintro s a s' ⟨hr, ho⟩ hok hs
    refine ⟨hr.step hs, ordered_step (reach_accounted hr) ho (step_pipe (misslog_len_eq_zero hr) hs) ?_⟩
    rintro rot cr fw b e rest rfl hb hrest
    exact hok b e rest hb hrest
  · rintro s a s' ⟨hr, ho⟩ hno hs hP
    exact not_inOrder_step hr ho hno hs hP.1

/-- One record, an `fwrite` that fails, and two that succeed while `errno` still is `ENOSPC`. -/
def rewriteRun : List Act :=
  [.write 0 false 7 ['a'] .async, .lock, .iterate, .writeEntry (.failed 0) (.failed 0) (.enospc 0),
    .flush (.failed 0) .ok ENOSPC, .update .async] ++ List.replicate 11 .iterate ++
  [.writeEntry (.failed 0) (.failed 0) .ok, .flush (.failed 0) .ok ENOSPC, .update .async] ++
  List.replicate 11 .iterate ++ [.writeEntry (.failed 0) (.failed 0) .ok]

theorem rewriteRun_twice : ¬ Always logger ExactlyOnce start rewriteRun := by
  intro h
  have hrun : (logger.exec start rewriteRun).map (fun s => (s.records.map Frag.line, s.pushed)) =
      some ([.record ⟨7, ['a'], 0⟩, .record ⟨7, ['a'], 0⟩], [⟨7, ['a'], 0⟩]) := by decide
  obtain ⟨s, hs, hv⟩ := Option.map_eq_some_iff.mp hrun
  simp only [Prod.mk.injEq] at hv
  have hin := (h.exec hs).1.nodup (by rw [hv.2]; decide)
  rw [hv.1] at hin
  revert hin
  decide

end BeanRaft.Logger
