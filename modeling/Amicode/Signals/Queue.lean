import Amicode.Foundation.FixedWidth
import Amicode.Foundation.StepMachine
import Amicode.Foundation.TextOrder
import Mathlib.Data.List.Sort

/-!
# The queue of signals

The signals of a session are files of a directory (`fleet_registry.ts`). A process that enqueues one reads the clock,
lists the directory for the highest sequence number there, takes the next that is free, and renames the file into
place. One consumer lists the files, in the order of their names, and deletes what it has listed.

Reading the clock, listing, each look whether a name is free, and renaming are steps of their own, and so are listing
and deleting. Any number of processes take their steps in any order, the clock goes on between them. A file is
written under a name that begins with a dot, which listing passes over, before it is renamed; that is left out, and
so is what the file holds: a signal is told from others by its number, in the order in which their files appear.
-/

open List

namespace Amicode.Signals

open JsText

inductive FleetAction
  | steer
  | stop
  | reTier
deriving DecidableEq

def FleetAction.text : FleetAction → List Char
  | .steer => "steer".toList
  | .stop => "stop".toList
  | .reTier => "re-tier".toList

/-! ## Names -/

def signalName (ms seq pid : ℕ) (action : FleetAction) : List Char :=
  padStart 13 '0' (decimal ms) ++ '-' :: (padStart 6 '0' (decimal seq) ++ '-' :: (decimal pid ++ '-' ::
    (action.text ++ ".toml".toList)))

/-- What follows a number of so many digits and a dash. -/
def fixedDigits? (width : ℕ) (text : List Char) : Option (ℕ × List Char) :=
  match text.drop width with
  | '-' :: rest =>
    if (text.take width).length = width ∧ (text.take width).all isDigit then
      some (Nat.ofDigitChars 10 (text.take width) 0, rest)
    else none
  | _ => none

/-- The sequence number of a name that matches `SIGNAL_NAME`. -/
def seqOf? (name : List Char) : Option ℕ := do
  let (_, rest) ← fixedDigits? 13 name
  let (seq, rest) ← fixedDigits? 6 rest
  match rest.takeWhile isDigit, rest.dropWhile isDigit with
  | _ :: _, '-' :: tail =>
    if tail ∈ [FleetAction.steer, .stop, .reTier].map fun action ↦ action.text ++ ".toml".toList then some seq
    else none
  | _, _ => none

/-! ## The directory -/

structure Signal where
  id : ℕ
  ms : ℕ
  seq : ℕ
  pid : ℕ
  action : FleetAction
deriving DecidableEq

def Signal.name (s : Signal) : List Char := signalName s.ms s.seq s.pid s.action

abbrev Files := List (List Char × Signal)

/-- One past the highest sequence number, which is -1 where there is none. -/
def nextSeq (files : Files) : ℕ :=
  ((files.filterMap fun file ↦ seqOf? file.1).foldl (fun (m : ℤ) seq ↦ max m seq) (-1) + 1).toNat

def listSignals (files : Files) : Files :=
  (sortByKey files).filter fun file ↦ file.1.head? ≠ some '.' && ".toml".toList.isSuffixOf file.1

/-- Rename a file into place; it takes the place of one that has the name. -/
def renameInto (files : Files) (signal : Signal) : Files :=
  files.filter (fun file ↦ file.1 ≠ signal.name) ++ [(signal.name, signal)]

/-! ## The processes -/

/-- Where a process is; `since` and `scannedAt` say how many signals there had been when it read the clock and when
it listed the directory. -/
inductive Phase
  | idle
  | called (now since : ℕ) (action : FleetAction)
  | naming (now since scannedAt seq : ℕ) (action : FleetAction)
  | writing (now since scannedAt seq : ℕ) (action : FleetAction)
deriving DecidableEq

structure QueueState (P : Type*) where
  clock : ℕ
  files : Files
  phases : P → Phase
  /-- What the consumer has listed and not deleted since. -/
  listing : List (List Char)
  /-- The signals that were enqueued, in the order in which their files appeared. -/
  log : List Signal
  /-- The numbers of those that were deleted. -/
  deleted : List ℕ

inductive QueueOp (P : Type*)
  | enqueue (p : P) (action : FleetAction)
  /-- A process takes its next step. -/
  | step (p : P)
  | list
  | delete (name : List Char)
  | tick (ms : ℕ)

variable {P : Type*} [DecidableEq P]

def QueueState.setPhase (s : QueueState P) (p : P) (phase : Phase) : QueueState P :=
  { s with phases := Function.update s.phases p phase }

def QueueState.appear (s : QueueState P) (signal : Signal) : QueueState P :=
  { s with files := renameInto s.files signal, log := s.log ++ [signal] }

def QueueState.advance (pid : P → ℕ) (s : QueueState P) (p : P) : QueueState P :=
  match s.phases p with
  | .idle => s
  | .called now since action => s.setPhase p (.naming now since s.log.length (nextSeq s.files) action)
  | .naming now since scannedAt seq action =>
    if signalName now seq (pid p) action ∈ s.files.map Prod.fst then
      s.setPhase p (.naming now since scannedAt (seq + 1) action)
    else s.setPhase p (.writing now since scannedAt seq action)
  | .writing now _ _ seq action => (s.appear ⟨s.log.length, now, seq, pid p, action⟩).setPhase p .idle

def queueStep (pid : P → ℕ) (s : QueueState P) : QueueOp P → QueueState P
  | .enqueue p action =>
    match s.phases p with
    | .idle => s.setPhase p (.called s.clock s.log.length action)
    | _ => s
  | .step p => s.advance pid p
  | .list => { s with listing := (listSignals s.files).map Prod.fst }
  | .delete name =>
    if name ∈ s.listing then
      { s with
        files := s.files.filter fun file ↦ file.1 ≠ name
        listing := s.listing.erase name
        deleted := s.deleted ++ (s.files.filter fun file ↦ file.1 = name).map fun file ↦ file.2.id }
    else s
  | .tick ms => { s with clock := s.clock + ms }

/-- A directory that is empty, and nobody has called. -/
def QueueState.start (P : Type*) (clock : ℕ) : QueueState P where
  clock
  files := []
  phases _ := .idle
  listing := []
  log := []
  deleted := []

end Amicode.Signals

/-!
# Signals are kept, and in order

No file of a signal is written over, and each signal is listed until it is deleted, in every run (`Kept`). That the
signals are listed in the order in which their files appeared depends on when they appear: each before any signal of
a later time that was read after its own, and before any of its own time that was enqueued after it had listed the
directory; and as long as the times and the sequence numbers have the widths they are padded to (`Timely`). Two
processes that enqueue at once read the same sequence number.
-/

namespace Amicode.Signals

open JsText StepMachine

variable {P : Type*} {pid : P → ℕ} {s : QueueState P} {op : QueueOp P} {p : P}

/-! ## The law -/

structure Kept (pid : P → ℕ) (s : QueueState P) : Prop where
  /-- A file that is about to be renamed into place takes no name that there is. -/
  free : ∀ p now since scannedAt seq action, s.phases p = .writing now since scannedAt seq action →
    signalName now seq (pid p) action ∉ s.files.map Prod.fst
  listed : ∀ signal ∈ s.log, signal.id ∉ s.deleted → (signal.name, signal) ∈ listSignals s.files

/-- What is listed is listed in the order in which it was enqueued. -/
def InOrder (s : QueueState P) : Prop := ((listSignals s.files).map Prod.snd).Sublist s.log

def TimelyAt (s : QueueState P) : Phase → Prop
  | .writing now since scannedAt seq _ =>
    now < 10 ^ 13 ∧ seq < 10 ^ 6
      ∧ ∀ other ∈ s.log, (since ≤ other.id → other.ms ≤ now) ∧ (scannedAt ≤ other.id → other.ms ≠ now)
  | _ => True

/-- If the step of a process makes its file appear, it does so in time. -/
def Timely (s : QueueState P) : QueueOp P → Prop
  | .step p => TimelyAt s (s.phases p)
  | _ => True

instance decidableTimelyAt (s : QueueState P) : ∀ phase, Decidable (TimelyAt s phase)
  | .writing now since scannedAt seq _ =>
    inferInstanceAs (Decidable (now < 10 ^ 13 ∧ seq < 10 ^ 6
      ∧ ∀ other ∈ s.log, (since ≤ other.id → other.ms ≤ now) ∧ (scannedAt ≤ other.id → other.ms ≠ now)))
  | .idle | .called _ _ _ | .naming _ _ _ _ _ => .isTrue trivial

instance decidableTimely (s : QueueState P) : ∀ op, Decidable (Timely s op)
  | .step p => inferInstanceAs (Decidable (TimelyAt s (s.phases p)))
  | .enqueue _ _ | .list | .delete _ | .tick _ => .isTrue trivial

/-! ## Names -/

theorem notMem_padded (width n : ℕ) : '-' ∉ padStart width '0' (decimal n) := fun h ↦
  absurd (isDigit_of_mem_padded h) (by decide)

theorem notMem_decimal (n : ℕ) : '-' ∉ decimal n := fun h ↦ absurd (isDigit_of_mem_decimal h) (by decide)

theorem pid_of_signalName {ms ms' seq seq' k k' : ℕ} {action action' : FleetAction}
    (h : signalName ms seq k action = signalName ms' seq' k' action') : k = k' := by
  obtain ⟨-, h⟩ := append_cons_inj (notMem_padded 13 ms) (notMem_padded 13 ms') h
  obtain ⟨-, h⟩ := append_cons_inj (notMem_padded 6 seq) (notMem_padded 6 seq') h
  obtain ⟨h, -⟩ := append_cons_inj (notMem_decimal k) (notMem_decimal k') h
  have hread := congrArg decimal? h
  rwa [decimal?_decimal, decimal?_decimal, Option.some.injEq] at hread

theorem fixedDigits?_padded {width n : ℕ} (hpos : 0 < width) (hlt : n < 10 ^ width) (rest : List Char) :
    fixedDigits? width (padStart width '0' (decimal n) ++ '-' :: rest) = some (n, rest) := by
  have hlength := length_padded hpos hlt
  have hall : (padStart width '0' (decimal n)).all isDigit = true :=
    List.all_eq_true.mpr fun c hc ↦ isDigit_of_mem_padded hc
  rw [fixedDigits?, drop_left' hlength, take_left' hlength]
  refine (if_pos ⟨hlength, hall⟩).trans ?_
  rw [ofDigitChars_padded]

theorem seqOf?_signalName {ms seq : ℕ} (hms : ms < 10 ^ 13) (hseq : seq < 10 ^ 6) (k : ℕ) (action : FleetAction) :
    seqOf? (signalName ms seq k action) = some seq := by
  have htake : (decimal k ++ '-' :: (action.text ++ ".toml".toList)).takeWhile isDigit = decimal k := by
    rw [takeWhile_append_of_pos fun c ↦ isDigit_of_mem_decimal, takeWhile_cons_of_neg (by decide),
      append_nil]
  have hdrop : (decimal k ++ '-' :: (action.text ++ ".toml".toList)).dropWhile isDigit
      = '-' :: (action.text ++ ".toml".toList) := by
    rw [dropWhile_append_of_pos fun c ↦ isDigit_of_mem_decimal, dropWhile_cons_of_neg (by decide)]
  obtain ⟨c, digits, hdigits⟩ := exists_cons_of_ne_nil (l := decimal k) Nat.toDigits_ne_nil
  have haction : action.text ++ ".toml".toList
      ∈ [FleetAction.steer, .stop, .reTier].map fun action ↦ action.text ++ ".toml".toList := by
    cases action <;> simp
  rw [seqOf?, signalName, fixedDigits?_padded (by omega) hms]
  simp only [Option.bind_eq_bind, Option.bind_some]
  rw [fixedDigits?_padded (by omega) hseq]
  simp only [Option.bind_some]
  rw [htake, hdrop, hdigits]
  exact if_pos haction

/-- A time and a sequence number come before others. -/
def Before (s t : Signal) : Prop := s.ms < t.ms ∨ s.ms = t.ms ∧ s.seq < t.seq

/-- The times and sequence numbers that have the widths they are padded to. -/
def Padded (s : Signal) : Prop := s.ms < 10 ^ 13 ∧ s.seq < 10 ^ 6

theorem not_le_name {s t : Signal} (ht : Padded t) (h : Before s t) : le t.name s.name = false := by
  rcases h with hms | ⟨hms, hseq⟩
  · exact not_le_padded (by omega) hms ht.1 _ _
  · rw [Signal.name, Signal.name, signalName, signalName, hms, le_append_left, ← singleton_append,
      ← singleton_append (l := padStart 6 '0' (decimal s.seq) ++ _), le_append_left]
    exact not_le_padded (by omega) hseq ht.2 _ _

/-! ## The next sequence number -/

variable {file : List Char × Signal} {files : Files} {signal : Signal} {phase : Phase} {now since scannedAt seq : ℕ}
  {action : FleetAction}

theorem lt_nextSeq (hfile : file ∈ files) {seq : ℕ}
    (hseq : seqOf? file.1 = some seq) : seq < nextSeq files := by
  have hmax : ∀ (seqs : List ℕ) (m : ℤ), m ≤ seqs.foldl (fun (m : ℤ) seq ↦ max m seq) m
      ∧ ∀ q ∈ seqs, (q : ℤ) ≤ seqs.foldl (fun (m : ℤ) seq ↦ max m seq) m := by
    intro seqs
    induction seqs with
    | nil => exact fun m ↦ ⟨le_refl m, nofun⟩
    | cons q seqs ih =>
      intro m
      obtain ⟨hle, hall⟩ := ih (max m q)
      refine ⟨(le_max_left m q).trans hle, forall_mem_cons.mpr ⟨(le_max_right m q).trans hle, hall⟩⟩
  have hmem : seq ∈ files.filterMap fun file ↦ seqOf? file.1 := mem_filterMap.mpr ⟨file, hfile, hseq⟩
  have hle := (hmax (files.filterMap fun file ↦ seqOf? file.1) (-1)).2 seq hmem
  rw [nextSeq]
  omega

/-! ## Listing -/

theorem mem_listSignals :
    file ∈ listSignals files ↔ file ∈ files ∧ file.1.head? ≠ some '.' ∧ ".toml".toList <:+ file.1 := by
  rw [listSignals, mem_filter, (perm_sortByKey files).mem_iff]
  simp

theorem head_signalName (ms seq k : ℕ) (action : FleetAction) : (signalName ms seq k action).head? ≠ some '.' := by
  intro h
  obtain ⟨c, digits, hdigits⟩ := exists_cons_of_ne_nil (l := padStart 13 '0' (decimal ms))
    (by simp [padStart, decimal, Nat.toDigits_ne_nil])
  rw [signalName, hdigits, cons_append, head?_cons, Option.some.injEq] at h
  have hmem : c ∈ padStart 13 '0' (decimal ms) := hdigits ▸ mem_cons_self
  have hdigit := isDigit_of_mem_padded hmem
  rw [h] at hdigit
  cases hdigit

theorem suffix_signalName (ms seq k : ℕ) (action : FleetAction) : ".toml".toList <:+ signalName ms seq k action :=
  ⟨padStart 13 '0' (decimal ms) ++ '-' :: (padStart 6 '0' (decimal seq) ++ '-' :: (decimal k ++ '-' :: action.text)),
    by simp [signalName]⟩

/-! ## What is kept -/

variable [DecidableEq P]

/-- What holds in every run. -/
structure Sound (pid : P → ℕ) (s : QueueState P) : Prop where
  ids : s.log.map Signal.id = List.range s.log.length
  files : ∀ file ∈ s.files, file.1 = file.2.name ∧ file.2 ∈ s.log
  nodup : (s.files.map Prod.fst).Nodup
  free : ∀ p now since scannedAt seq action, s.phases p = .writing now since scannedAt seq action →
    signalName now seq (pid p) action ∉ s.files.map Prod.fst
  kept : ∀ signal ∈ s.log, signal.id ∉ s.deleted → (signal.name, signal) ∈ s.files

omit [DecidableEq P] in
theorem sound_start (clock : ℕ) : Sound pid (QueueState.start P clock) :=
  ⟨rfl, nofun, nodup_nil, nofun, nofun⟩

omit [DecidableEq P] in
theorem Sound.id_lt (h : Sound pid s) (hsignal : signal ∈ s.log) : signal.id < s.log.length := by
  have hmem := List.mem_map_of_mem (f := Signal.id) hsignal
  rwa [h.ids, mem_range] at hmem

theorem Sound.setPhase (h : Sound pid s)
    (hfree : ∀ now since scannedAt seq action, phase = .writing now since scannedAt seq action →
      signalName now seq (pid p) action ∉ s.files.map Prod.fst) : Sound pid (s.setPhase p phase) := by
  refine ⟨h.ids, h.files, h.nodup, fun q now since scannedAt seq action hq ↦ ?_, h.kept⟩
  rcases eq_or_ne q p with rfl | hne
  · exact hfree now since scannedAt seq action (by simpa [QueueState.setPhase] using hq)
  · exact h.free q now since scannedAt seq action (by simpa [QueueState.setPhase, hne] using hq)

theorem renameInto_of_notMem (h : signal.name ∉ files.map Prod.fst) :
    renameInto files signal = files ++ [(signal.name, signal)] := by
  have hall : files.filter (fun file ↦ file.1 ≠ signal.name) = files := by
    refine filter_eq_self.mpr fun file hfile ↦ decide_eq_true fun heq ↦ h ?_
    exact heq ▸ List.mem_map_of_mem hfile
  rw [renameInto, hall]

omit [DecidableEq P] in
theorem Sound.files_appear (h : Sound pid s)
    (hphase : s.phases p = .writing now since scannedAt seq action) :
    (s.appear ⟨s.log.length, now, seq, pid p, action⟩).files
      = s.files ++ [(signalName now seq (pid p) action, ⟨s.log.length, now, seq, pid p, action⟩)] :=
  renameInto_of_notMem (h.free p now since scannedAt seq action hphase)

theorem Sound.appear (h : Sound pid s) (hpid : Function.Injective pid)
    (hphase : s.phases p = .writing now since scannedAt seq action) :
    Sound pid ((s.appear ⟨s.log.length, now, seq, pid p, action⟩).setPhase p .idle) := by
  have hfree := h.free p now since scannedAt seq action hphase
  have hfiles := h.files_appear hphase
  refine ⟨?_, fun file hfile ↦ ?_, ?_, fun q now' since' scannedAt' seq' action' hq ↦ ?_, fun signal hsignal hid ↦ ?_⟩
  · change (s.log ++ [_]).map Signal.id = List.range (s.log ++ [_]).length
    rw [map_append, h.ids, length_append, length_singleton, range_succ]
    rfl
  · change file ∈ (s.appear _).files at hfile
    rw [hfiles] at hfile
    rcases mem_append.mp hfile with hfile | hfile
    · exact ⟨(h.files file hfile).1, mem_append_left _ (h.files file hfile).2⟩
    · rw [mem_singleton.mp hfile]
      exact ⟨rfl, mem_append_right _ mem_cons_self⟩
  · change ((s.appear _).files.map Prod.fst).Nodup
    rw [hfiles, map_append, nodup_append_comm]
    exact nodup_cons.mpr ⟨hfree, h.nodup⟩
  · have hne : q ≠ p := by
      rintro rfl
      simp [QueueState.setPhase] at hq
    have hq' : s.phases q = .writing now' since' scannedAt' seq' action' := by
      simpa [QueueState.setPhase, QueueState.appear, hne] using hq
    change _ ∉ (s.appear _).files.map Prod.fst
    rw [hfiles, map_append, mem_append, not_or]
    refine ⟨h.free q now' since' scannedAt' seq' action' hq', fun hmem ↦ hne (hpid ?_)⟩
    exact pid_of_signalName (mem_singleton.mp hmem)
  · change (signal.name, signal) ∈ (s.appear _).files
    rw [hfiles]
    rcases mem_append.mp hsignal with hsignal | hsignal
    · exact mem_append_left _ (h.kept signal hsignal hid)
    · rw [mem_singleton.mp hsignal]
      exact mem_append_right _ mem_cons_self

omit [DecidableEq P] in
theorem Sound.delete (h : Sound pid s) (name : List Char) (listing : List (List Char)) :
    Sound pid { s with
      files := s.files.filter fun file ↦ file.1 ≠ name
      listing := listing
      deleted := s.deleted ++ (s.files.filter fun file ↦ file.1 = name).map fun file ↦ file.2.id } := by
  refine ⟨h.ids, fun file hfile ↦ h.files file (mem_of_mem_filter hfile),
    h.nodup.sublist ((filter_sublist (l := s.files)).map Prod.fst),
    fun p now since scannedAt seq action hp hmem ↦ ?_, fun signal hsignal hid ↦ ?_⟩
  · obtain ⟨file, hfile, hname⟩ := List.mem_map.mp hmem
    exact h.free p now since scannedAt seq action hp (hname ▸ List.mem_map_of_mem (mem_of_mem_filter hfile))
  · rw [mem_append, not_or] at hid
    have hfile := h.kept signal hsignal hid.1
    refine mem_filter.mpr ⟨hfile, decide_eq_true fun heq ↦ hid.2 ?_⟩
    exact List.mem_map.mpr ⟨_, mem_filter.mpr ⟨hfile, decide_eq_true heq⟩, rfl⟩

theorem Sound.step (hpid : Function.Injective pid) (s : QueueState P) (op : QueueOp P) (h : Sound pid s) :
    Sound pid (queueStep pid s op) := by
  cases op with
  | enqueue p action =>
    rw [queueStep]
    split
    · exact h.setPhase nofun
    · exact h
  | step p =>
    rw [queueStep, QueueState.advance]
    split
    · exact h
    · exact h.setPhase nofun
    · split_ifs with hfree
      · exact h.setPhase nofun
      · refine h.setPhase fun now since scannedAt seq action hphase ↦ ?_
        cases hphase
        exact hfree
    · next hphase => exact h.appear hpid hphase
  | list => exact ⟨h.ids, h.files, h.nodup, h.free, h.kept⟩
  | delete name =>
    rw [queueStep]
    split_ifs
    · exact h.delete name _
    · exact h
  | tick ms => exact ⟨h.ids, h.files, h.nodup, h.free, h.kept⟩

omit [DecidableEq P] in
theorem Sound.isKept (h : Sound pid s) : Kept pid s := by
  refine ⟨h.free, fun signal hsignal hid ↦ ?_⟩
  exact mem_listSignals.mpr ⟨h.kept signal hsignal hid, head_signalName _ _ _ _, suffix_signalName _ _ _ _⟩

/-! ## What is in time -/

/-- The signals of earlier numbers are of no later time. -/
def CalledInTime (s : QueueState P) (now since : ℕ) : Prop :=
  now ≤ s.clock ∧ since ≤ s.log.length ∧ ∀ other ∈ s.log, other.id < since → other.ms ≤ now

/-- The signals of earlier numbers that are there have smaller sequence numbers. -/
def ScannedInTime (s : QueueState P) (scannedAt seq : ℕ) : Prop :=
  scannedAt ≤ s.log.length ∧ ∀ file ∈ s.files, file.2.id < scannedAt → file.2.seq < seq

def PhaseInTime (s : QueueState P) : Phase → Prop
  | .idle => True
  | .called now since _ => CalledInTime s now since
  | .naming now since scannedAt seq _ | .writing now since scannedAt seq _ =>
    CalledInTime s now since ∧ ScannedInTime s scannedAt seq

/-- What holds in a run in which each signal appears in time. -/
structure InTime (s : QueueState P) : Prop where
  clock : ∀ signal ∈ s.log, signal.ms ≤ s.clock
  padded : ∀ file ∈ s.files, Padded file.2
  order : ∀ earlier ∈ s.files, ∀ later ∈ s.files, earlier.2.id < later.2.id → Before earlier.2 later.2
  phases : ∀ p, PhaseInTime s (s.phases p)

omit [DecidableEq P] in
theorem inTime_start (clock : ℕ) : InTime (QueueState.start P clock) :=
  ⟨nofun, nofun, nofun, fun _ ↦ trivial⟩

omit [DecidableEq P] in
theorem PhaseInTime.mono {s s' : QueueState P} (h : PhaseInTime s phase) (hclock : s.clock ≤ s'.clock)
    (hlength : s.log.length ≤ s'.log.length)
    (hlog : ∀ signal ∈ s'.log, signal ∈ s.log ∨ s.log.length ≤ signal.id)
    (hfiles : ∀ file ∈ s'.files, file ∈ s.files ∨ s.log.length ≤ file.2.id) : PhaseInTime s' phase := by
  have hcalled : ∀ {now since}, CalledInTime s now since → CalledInTime s' now since := by
    rintro now since ⟨hnow, hsince, hall⟩
    refine ⟨hnow.trans hclock, hsince.trans hlength, fun other hother hid ↦ ?_⟩
    exact hall other ((hlog other hother).resolve_right (by omega)) hid
  have hscanned : ∀ {scannedAt seq}, ScannedInTime s scannedAt seq → ScannedInTime s' scannedAt seq := by
    rintro scannedAt seq ⟨hat, hall⟩
    refine ⟨hat.trans hlength, fun file hfile hid ↦ ?_⟩
    exact hall file ((hfiles file hfile).resolve_right (by omega)) hid
  cases phase with
  | idle => trivial
  | called now since action => exact hcalled h
  | naming now since scannedAt seq action => exact ⟨hcalled h.1, hscanned h.2⟩
  | writing now since scannedAt seq action => exact ⟨hcalled h.1, hscanned h.2⟩

theorem InTime.setPhase (h : InTime s) (hphase : PhaseInTime s phase) :
    InTime (s.setPhase p phase) := by
  refine ⟨h.clock, h.padded, h.order, fun q ↦ ?_⟩
  have hmono : ∀ phase', PhaseInTime s phase' → PhaseInTime (s.setPhase p phase) phase' := fun phase' hphase' ↦
    hphase'.mono le_rfl le_rfl (fun _ ↦ .inl) fun _ ↦ .inl
  rcases eq_or_ne q p with rfl | hne
  · simpa [QueueState.setPhase] using hmono phase hphase
  · simpa [QueueState.setPhase, hne] using hmono (s.phases q) (h.phases q)

omit [DecidableEq P] in
theorem before_of_timely (hsound : Sound pid s) (h : InTime s)
    (hphase : s.phases p = .writing now since scannedAt seq action) (htimely : TimelyAt s (s.phases p))
    (hfile : file ∈ s.files) (hms : signal.ms = now)
    (hseq : signal.seq = seq) : Before file.2 signal := by
  have hlog := (hsound.files file hfile).2
  have hin := h.phases p
  rw [hphase] at htimely hin
  obtain ⟨-, -, hothers⟩ := htimely
  obtain ⟨⟨-, -, hcalled⟩, -, hscanned⟩ := hin
  have hle : file.2.ms ≤ now := by
    by_cases hid : file.2.id < since
    · exact hcalled file.2 hlog hid
    · exact (hothers file.2 hlog).1 (by omega)
  rcases hle.lt_or_eq with hlt | heq
  · exact .inl (hms ▸ hlt)
  · have hid : file.2.id < scannedAt := by
      by_contra hid
      exact (hothers file.2 hlog).2 (by omega) heq
    exact .inr ⟨hms ▸ heq, hseq ▸ hscanned file hfile hid⟩

omit [DecidableEq P] in
theorem InTime.appear (hsound : Sound pid s) (h : InTime s)
    (hphase : s.phases p = .writing now since scannedAt seq action) (htimely : TimelyAt s (s.phases p)) :
    InTime (s.appear ⟨s.log.length, now, seq, pid p, action⟩) := by
  have hfiles := hsound.files_appear hphase
  have hin := h.phases p
  have hwidths := htimely
  rw [hphase] at hin hwidths
  refine ⟨fun signal hsignal ↦ ?_, fun file hfile ↦ ?_, fun earlier hearlier later hlater hid ↦ ?_, fun q ↦ ?_⟩
  · rcases mem_append.mp hsignal with hsignal | hsignal
    · exact h.clock signal hsignal
    · rw [mem_singleton.mp hsignal]
      exact hin.1.1
  · rw [hfiles] at hfile
    rcases mem_append.mp hfile with hfile | hfile
    · exact h.padded file hfile
    · rw [mem_singleton.mp hfile]
      exact ⟨hwidths.1, hwidths.2.1⟩
  · have hlt : ∀ file ∈ s.files, file.2.id < s.log.length := fun file hfile ↦
      hsound.id_lt (hsound.files file hfile).2
    rw [hfiles] at hearlier hlater
    rcases mem_append.mp hearlier with hearlier | hearlier
    · rcases mem_append.mp hlater with hlater | hlater
      · exact h.order earlier hearlier later hlater hid
      · rw [mem_singleton.mp hlater]
        exact before_of_timely hsound h hphase htimely hearlier rfl rfl
    · -- the new signal has the highest number
      rw [mem_singleton.mp hearlier] at hid
      rcases mem_append.mp hlater with hlater | hlater
      · exact absurd (hid.trans (hlt later hlater)) (lt_irrefl _)
      · rw [mem_singleton.mp hlater] at hid
        exact absurd hid (lt_irrefl _)
  · refine (h.phases q).mono le_rfl ?_ (fun signal hsignal ↦ ?_) fun file hfile ↦ ?_
    · simp [QueueState.appear]
    · rcases mem_append.mp hsignal with hsignal | hsignal
      · exact .inl hsignal
      · rw [mem_singleton.mp hsignal]
        exact .inr le_rfl
    · rw [hfiles] at hfile
      rcases mem_append.mp hfile with hfile | hfile
      · exact .inl hfile
      · rw [mem_singleton.mp hfile]
        exact .inr le_rfl

omit [DecidableEq P] in
/-- A process that lists the directory gets a sequence number above those that are there. -/
theorem scannedInTime (hsound : Sound pid s) (h : InTime s) : ScannedInTime s s.log.length (nextSeq s.files) := by
  refine ⟨le_rfl, fun file hfile _ ↦ lt_nextSeq hfile ?_⟩
  obtain ⟨hms, hseq⟩ := h.padded file hfile
  rw [(hsound.files file hfile).1]
  exact seqOf?_signalName hms hseq _ _

theorem InTime.step (s : QueueState P) (op : QueueOp P) (h : Sound pid s ∧ InTime s) (htimely : Timely s op) :
    InTime (queueStep pid s op) := by
  obtain ⟨hsound, h⟩ := h
  cases op with
  | enqueue p action =>
    rw [queueStep]
    split
    · exact h.setPhase ⟨le_rfl, le_rfl, fun other hother _ ↦ h.clock other hother⟩
    · exact h
  | step p =>
    have hin := h.phases p
    rw [queueStep, QueueState.advance]
    split
    · exact h
    · next hphase =>
      rw [hphase] at hin
      exact h.setPhase ⟨hin, scannedInTime hsound h⟩
    · next hphase =>
      rw [hphase] at hin
      split_ifs
      · exact h.setPhase ⟨hin.1, hin.2.1, fun file hfile hid ↦ (hin.2.2 file hfile hid).trans (Nat.lt_succ_self _)⟩
      · exact h.setPhase hin
    · next hphase => exact (h.appear hsound hphase htimely).setPhase trivial
  | list => exact ⟨h.clock, h.padded, h.order, fun p ↦ (h.phases p).mono le_rfl le_rfl (fun _ ↦ .inl) fun _ ↦ .inl⟩
  | delete name =>
    rw [queueStep]
    split_ifs
    · refine ⟨h.clock, fun file hfile ↦ h.padded file (mem_of_mem_filter hfile),
        fun earlier hearlier later hlater ↦ h.order earlier (mem_of_mem_filter hearlier) later
          (mem_of_mem_filter hlater), fun p ↦ ?_⟩
      exact (h.phases p).mono le_rfl le_rfl (fun _ ↦ .inl) fun _ hfile ↦ .inl (mem_of_mem_filter hfile)
    · exact h
  | tick ms =>
    refine ⟨fun signal hsignal ↦ (h.clock signal hsignal).trans (Nat.le_add_right _ _), h.padded, h.order, fun p ↦ ?_⟩
    exact (h.phases p).mono (Nat.le_add_right _ _) le_rfl (fun _ ↦ .inl) fun _ ↦ .inl

/-! ## What is listed -/

omit [DecidableEq P] in
theorem Sound.pairwise_log (h : Sound pid s) : s.log.Pairwise fun a b ↦ a.id < b.id := by
  rw [← pairwise_map (f := Signal.id) (R := (· < ·)), h.ids]
  exact pairwise_lt_range

omit [DecidableEq P] in
theorem Sound.eq_of_id_eq (h : Sound pid s) {a b : Signal} (ha : a ∈ s.log) (hb : b ∈ s.log) (hid : a.id = b.id) :
    a = b :=
  inj_on_of_nodup_map (h.ids ▸ nodup_range) ha hb hid

omit [DecidableEq P] in
theorem inOrder (hsound : Sound pid s) (h : InTime s) : InOrder s := by
  have hnodup : ((listSignals s.files).map Prod.fst).Nodup :=
    (((perm_sortByKey s.files).map Prod.fst).nodup_iff.mpr hsound.nodup).sublist (filter_sublist.map Prod.fst)
  have hnames : (listSignals s.files).Pairwise fun a b ↦ a.1 ≠ b.1 := pairwise_map.mp hnodup
  have hsorted : (listSignals s.files).Pairwise fun a b ↦ le a.1 b.1 = true :=
    (pairwise_sortByKey s.files).sublist filter_sublist
  have hids : (listSignals s.files).Pairwise fun a b ↦ a.2.id < b.2.id := by
    refine (hnames.and hsorted).imp_of_mem fun {a b} ha hb hab ↦ ?_
    have ha := (mem_listSignals.mp ha).1
    have hb := (mem_listSignals.mp hb).1
    obtain ⟨hname, hlog⟩ := hsound.files a ha
    obtain ⟨hname', hlog'⟩ := hsound.files b hb
    rcases lt_trichotomy a.2.id b.2.id with hlt | heq | hgt
    · exact hlt
    · rw [hname, hname', hsound.eq_of_id_eq hlog hlog' heq] at hab
      exact absurd rfl hab.1
    · have hnot := not_le_name (h.padded a ha) (h.order b hb a ha hgt)
      rw [hname, hname', hnot] at hab
      exact absurd hab.2 Bool.false_ne_true
  have hids' : ((listSignals s.files).map Prod.snd).Pairwise fun a b ↦ a.id < b.id := pairwise_map.mpr hids
  have hsubset : (listSignals s.files).map Prod.snd ⊆ s.log := by
    intro signal hsignal
    obtain ⟨file, hfile, rfl⟩ := List.mem_map.mp hsignal
    exact (hsound.files file (mem_listSignals.mp hfile).1).2
  have hdistinct : ((listSignals s.files).map Prod.snd).Nodup := hids'.imp fun hlt heq ↦ absurd (heq ▸ hlt) (lt_irrefl _)
  exact sublist_of_subperm_of_pairwise (subperm_of_subset hdistinct hsubset) hids' hsound.pairwise_log

/-! ## Every run -/

variable (hpid : Function.Injective pid) (clock : ℕ) (ops : List (QueueOp P))
include hpid

theorem sound_run : Sound pid (run (queueStep pid) (QueueState.start P clock) ops) :=
  invariant_run (Sound.step hpid) (sound_start clock) ops

/-- Every run keeps the signals, and a run in which each signal appears in time keeps them in order. -/
theorem signalQueue_run : Kept pid (run (queueStep pid) (QueueState.start P clock) ops)
    ∧ (Guarded (queueStep pid) Timely (QueueState.start P clock) ops →
      InOrder (run (queueStep pid) (QueueState.start P clock) ops)) := by
  refine ⟨(sound_run hpid clock ops).isKept, fun hops ↦ ?_⟩
  have hrun := invariant_run_of_guarded (I := fun s ↦ Sound pid s ∧ InTime s)
    (fun s op h htimely ↦ ⟨h.1.step hpid s op, InTime.step s op h htimely⟩) ⟨sound_start clock, inTime_start clock⟩ hops
  exact inOrder hrun.1 hrun.2

omit hpid

/-- Two processes, the greater identifier of which is that of `false`. -/
def twoPids (b : Bool) : ℕ := if b then 1 else 2

theorem injective_twoPids : Function.Injective twoPids := by
  have hall : ∀ a b : Bool, twoPids a = twoPids b → a = b := by decide
  exact fun a b ↦ hall a b

/-- One process enqueues after the other, and the consumer deletes the first signal. -/
def oneByOne : List (QueueOp Bool) :=
  [.enqueue false .stop, .step false, .step false, .step false, .enqueue true .steer, .step true, .step true,
    .step true, .list, .delete (signalName 0 0 2 .stop), .tick 1, .enqueue true .stop, .step true, .step true,
    .step true]

theorem signalQueue_oneByOne : Kept twoPids (run (queueStep twoPids) (QueueState.start Bool 0) oneByOne)
    ∧ InOrder (run (queueStep twoPids) (QueueState.start Bool 0) oneByOne) := by
  have h := signalQueue_run injective_twoPids 0 oneByOne
  exact ⟨h.1, h.2 (by decide +kernel)⟩

/-- Both processes list the directory before the file of either appears. -/
def together : List (QueueOp Bool) :=
  [.enqueue false .stop, .enqueue true .stop, .step false, .step true, .step false, .step true, .step false, .step true]

theorem not_inOrder_together : ¬ ∀ ops : List (QueueOp Bool),
    Kept twoPids (run (queueStep twoPids) (QueueState.start Bool 0) ops)
      ∧ InOrder (run (queueStep twoPids) (QueueState.start Bool 0) ops) := by
  intro h
  have hnot : ¬ ((listSignals (run (queueStep twoPids) (QueueState.start Bool 0) together).files).map Prod.snd).Sublist
      (run (queueStep twoPids) (QueueState.start Bool 0) together).log := by decide +kernel
  exact hnot (h together).2

end Amicode.Signals
