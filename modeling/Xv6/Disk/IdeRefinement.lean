import Xv6.Disk.Ide

/-!
# The interrupt-driven disk does what the memory disk does

Through every interleaving of `iderw` and `ideintr` the driver completes its
requests in the order of the queue, each with the result that the atomic `iderw`
of `memide.c` has.
-/

namespace Xv6.Ide

open Foundation.Monitor
open Function (update update_of_ne update_self)
open Foundation.Transition (run)
open Driver (does_of_inside idestart_eq_some init starts_cases)

variable {Process Buf : Type}

/-! ## The memory disk -/

variable {fields : Fields}

/-- A call of the atomic `iderw` does the command of its buffer. -/
theorem memIderw_eq {disk : Disk} (sector : Block)
    (unfinished : ¬ fields.Done) (inside : fields.blockno < fssize) :
    memIderw disk fields = some (fields.command.perform disk, { fields with
        valid := true
        dirty := false
        data := if fields.dirty then fields.data
          else fields.command.fetch disk sector }) := by
  unfold memIderw
  rw [if_neg unfinished, if_neg (by omega)]
  obtain ⟨valid, dirty, blockno, data⟩ := fields
  cases dirty with
  | false => rfl
  | true => rfl

variable {b : Buf}

theorem memRun_append_one {disk middle final : Disk} {results : List (Buf × Fields)}
    {calls : List (Buf × Fields)} {fields result : Fields}
    (before : memRun disk calls = some (middle, results))
    (last : memIderw middle fields = some (final, result)) :
    memRun disk (calls ++ [(b, fields)]) = some (final, results ++ [(b, result)]) := by
  induction calls generalizing disk results with
  | nil =>
    cases before
    simp [memRun, last]
  | cons call rest ih =>
    obtain ⟨first, given⟩ := call
    simp only [memRun, Option.bind_eq_bind, Option.bind_eq_some_iff] at before
    obtain ⟨⟨next, left⟩, called, ⟨after, others⟩, ran, same⟩ := before
    cases same
    simp [memRun, called, ih ran]

variable {calls results : List (Buf × Fields)}

/-- The memory disk completes the buffers of the calls. -/
theorem map_memRun {disk final : Disk} (ran : memRun disk calls = some (final, results)) :
    results.map Prod.fst = calls.map Prod.fst := by
  induction calls generalizing disk results with
  | nil =>
    cases ran
    rfl
  | cons call rest ih =>
    obtain ⟨first, given⟩ := call
    simp only [memRun, Option.bind_eq_bind, Option.bind_eq_some_iff] at ran
    obtain ⟨⟨next, left⟩, -, ⟨after, others⟩, ran, same⟩ := ran
    cases same
    rw [List.map_cons, List.map_cons, ih ran]

theorem length_memRun {disk final : Disk}
    (ran : memRun disk calls = some (final, results)) : results.length = calls.length := by
  simpa using congrArg List.length (map_memRun ran)

/-! ## The invariant -/

/-- The requests are the served ones, which the memory disk would have served
alike, and then those in the queue. -/
structure Sound (initial : Disk) (ide : Driver Process Buf)
    (served : List (Buf × Fields)) (before : Disk) : Prop where
  requests : ide.requests = served ++ ide.idequeue.map fun b => (b, ide.bufs b)
  performed : memRun initial served = some (before, ide.completed)
  disk : ide.disk =
    if ide.raised then (ide.command.elim before (·.perform before))
    else before
  sector : ide.raised = true → ∀ command, ide.command = some command →
    ∃ sector, ide.sector = command.fetch before sector
  nodup : ide.idequeue.Nodup
  used : ∀ b ∈ ide.idequeue, ide.user b ≠ none ∧ ¬ (ide.bufs b).Done
  returned : ∀ request b fields, (request, b, fields) ∈ ide.returned →
    ide.completed[request]? = some (b, fields)

/-- What holds of a process at a place. -/
def At (ide : Driver Process Buf) (proc : Process) : Place Buf → Prop
  | .queue b _ => ide.user b = some proc ∧ ¬ (ide.bufs b).Done ∧ b ∉ ide.idequeue
  | .wait b request =>
    ide.user b = some proc ∧
      ((∃ pos, ide.idequeue[pos]? = some b ∧ request = ide.completed.length + pos) ∨
        ide.completed[request]? = some (b, ide.bufs b) ∧ (ide.bufs b).Done)
  | .intr => ide.raised = true
  | .intrWakeup _ | .intrStart => ide.command = none ∧ ide.raised = false

/-- The disk works on the head of the queue. -/
def Working (ide : Driver Process Buf) : Prop :=
  ide.command = ide.idequeue.head?.map (fun b => (ide.bufs b).command) ∧
    ∀ b, ide.idequeue.head? = some b → (ide.bufs b).blockno < fssize

/-- The driver is sound, every process is where its place says, one handler
runs at a time, and the disk works on the head of the queue except while the
handler goes from one buffer to the next. -/
structure Serves (initial : Disk) (ide : Driver Process Buf)
    (places : Process → Option (Place Buf)) (running : Option Process) :
    Prop where
  sound : ∃ served before, Sound initial ide served before
  located : ∀ proc place, places proc = some place → At ide proc place
  handler : ∀ proc other, places proc = some .intr →
    places other = some .intr → proc = other
  between : ∀ proc place, places proc = some place →
    place.between = true → running = some proc
  working : (∀ proc place, places proc = some place → place.between = false) → Working ide
  busy : ide.raised = true → ide.command ≠ none

variable {ide : Driver Process Buf} {initial : Disk}

section Sound

variable {served : List (Buf × Fields)} {before : Disk}

section

variable (sound : Sound initial ide served before)
include sound

theorem Sound.disk_of_quiet (quiet : ide.raised = false) : ide.disk = before := by
  rw [sound.disk, quiet]
  rfl

/-- `idestart` on an idle disk. -/
theorem Sound.started {command : Command} (quiet : ide.raised = false) :
    Sound initial { ide with command := some command, raised := false } served before where
  requests := sound.requests
  performed := sound.performed
  disk := sound.disk_of_quiet quiet
  sector := fun raised => absurd raised Bool.false_ne_true
  nodup := sound.nodup
  used := sound.used
  returned := sound.returned

/-- The disk finishes its command. -/
theorem Sound.raise {command : Command} (issued : ide.command = some command)
    (quiet : ide.raised = false) : Sound initial (ide.raise command) served before where
  requests := sound.requests
  performed := sound.performed
  disk := by
    change command.perform ide.disk = ide.command.elim before (·.perform before)
    rw [issued, sound.disk_of_quiet quiet]
    rfl
  sector := by
    intro _ other same
    rw [show (ide.raise command).command = ide.command from rfl, issued] at same
    cases same
    rw [← sound.disk_of_quiet quiet]
    exact ⟨ide.sector, rfl⟩
  nodup := sound.nodup
  used := sound.used
  returned := sound.returned

/-- A request is queued. -/
theorem Sound.append (user : ide.user b ≠ none) (unfinished : ¬ (ide.bufs b).Done)
    (fresh : b ∉ ide.idequeue) : Sound initial (ide.append b) served before where
  requests := by
    change ide.requests ++ _ = served ++ (ide.idequeue ++ [b]).map _
    rw [sound.requests, List.map_append, List.append_assoc]
    rfl
  performed := sound.performed
  disk := sound.disk
  sector := sound.sector
  nodup := by
    change (ide.idequeue ++ [b]).Nodup
    rw [← List.concat_eq_append]
    exact sound.nodup.concat fresh
  used := by
    intro other member
    rcases List.mem_append.mp member with queued | last
    · exact sound.used other queued
    · rw [List.mem_singleton.mp last]
      exact ⟨user, unfinished⟩
  returned := sound.returned

/-- The request that was just queued is the last one. -/
theorem Sound.queued_last {proc : Process} (user : ide.user b = some proc) :
    At (ide.append b) proc (.wait b ide.requests.length) := by
  refine ⟨user, .inl ⟨ide.idequeue.length, List.getElem?_concat_length, ?_⟩⟩
  change ide.requests.length = ide.completed.length + _
  rw [sound.requests, List.length_append, List.length_map, length_memRun sound.performed]

end

variable [DecidableEq Buf]

section

variable (sound : Sound initial ide served before)
include sound

/-- `iderw` is called with a buffer that nobody uses. -/
theorem Sound.call {proc : Process} (unused : ide.user b = none) :
    Sound initial (ide.call proc b fields) served before := by
  have apart : ∀ other ∈ ide.idequeue, other ≠ b := by
    rintro other member rfl
    exact (sound.used other member).1 unused
  refine ⟨?_, sound.performed, sound.disk, sound.sector, sound.nodup, ?_, sound.returned⟩
  · refine sound.requests.trans (congrArg (served ++ ·) ?_)
    refine List.map_congr_left fun other member => ?_
    change _ = (other, update ide.bufs b fields other)
    rw [update_of_ne (apart other member)]
  · intro other member
    change update ide.user b (some proc) other ≠ none ∧ ¬ (update ide.bufs b fields other).Done
    rw [update_of_ne (apart other member), update_of_ne (apart other member)]
    exact sound.used other member

/-- The handler completes the request at the head of the queue. -/
theorem Sound.complete {rest : List Buf} (head : ide.idequeue = b :: rest)
    (raised : ide.raised = true) (issued : ide.command = some (ide.bufs b).command)
    (inside : (ide.bufs b).blockno < fssize) :
    Sound initial (ide.complete b rest) (served ++ [(b, ide.bufs b)])
      ((ide.bufs b).command.perform before) := by
  have nodup : b ∉ rest ∧ rest.Nodup := List.nodup_cons.mp (head ▸ sound.nodup)
  have apart : ∀ other ∈ rest, other ≠ b := by
    rintro other member rfl
    exact nodup.1 member
  have unfinished := (sound.used b (by rw [head]; exact List.mem_cons_self)).2
  refine ⟨?_, ?_, ?_, fun quiet => absurd quiet Bool.false_ne_true, nodup.2, ?_, ?_⟩
  · refine sound.requests.trans ?_
    rw [head, List.map_cons, List.append_assoc, List.singleton_append]
    refine congrArg (fun queued => served ++ (b, ide.bufs b) :: queued) ?_
    refine List.map_congr_left fun other member => ?_
    change _ = (other, update ide.bufs b (ide.served b) other)
    rw [update_of_ne (apart other member)]
  · obtain ⟨sector, fetched⟩ := sound.sector raised _ issued
    have called : memIderw before (ide.bufs b) = some _ := memIderw_eq sector unfinished inside
    rw [← fetched] at called
    exact memRun_append_one sound.performed called
  · change ide.disk = _
    rw [sound.disk, raised, issued]
    rfl
  · intro other member
    change ide.user other ≠ none ∧ ¬ (update ide.bufs b (ide.served b) other).Done
    rw [update_of_ne (apart other member)]
    exact sound.used other (by rw [head]; exact List.mem_cons_of_mem b member)
  · intro request other fields member
    have kept := sound.returned request other fields member
    have bound := (List.getElem?_eq_some_iff.mp kept).1
    exact (List.getElem?_append_left bound).trans kept

/-- `iderw` returns with a buffer that was completed. -/
theorem Sound.finish {request : Nat} (done : (ide.bufs b).Done)
    (completed : ide.completed[request]? = some (b, ide.bufs b)) :
    Sound initial (ide.finish b request) served before := by
  refine ⟨sound.requests, sound.performed, sound.disk, sound.sector, sound.nodup, ?_, ?_⟩
  · intro other member
    have different : other ≠ b := by
      rintro rfl
      exact (sound.used other member).2 done
    change update ide.user b none other ≠ none ∧ _
    rw [update_of_ne different]
    exact sound.used other member
  · intro given other fields member
    rcases List.mem_append.mp member with earlier | last
    · exact sound.returned given other fields earlier
    · cases List.mem_singleton.mp last
      exact completed

end

end Sound

variable {proc : Process}

section Located

variable {place : Place Buf}

/-- A place depends on the queue, the users, the buffers and the disk. -/
theorem At.congr {next : Driver Process Buf} (located : At ide proc place)
    (idequeue : next.idequeue = ide.idequeue) (bufs : next.bufs = ide.bufs)
    (user : next.user = ide.user) (completed : next.completed = ide.completed)
    (intr : place = .intr → next.raised = true) (between : place.between = false) :
    At next proc place := by
  cases place with
  | queue b fields =>
    unfold At at located ⊢
    rw [idequeue, bufs, user]
    exact located
  | wait b request =>
    unfold At at located ⊢
    rw [idequeue, bufs, user, completed]
    exact located
  | intr => exact intr rfl
  | intrWakeup _ | intrStart => cases between

/-- A request is queued behind the others. -/
theorem At.append (located : At ide proc place)
    (other : ide.user b ≠ some proc) : At (ide.append b) proc place := by
  cases place with
  | queue mine fields =>
    refine ⟨located.1, located.2.1, fun member => ?_⟩
    rcases List.mem_append.mp member with queued | last
    · exact located.2.2 queued
    · rw [List.mem_singleton.mp last] at located
      exact other located.1
  | wait mine request =>
    obtain ⟨user, ⟨pos, queued, here⟩ | completed⟩ := located
    · have bound := (List.getElem?_eq_some_iff.mp queued).1
      exact ⟨user, .inl ⟨pos, (List.getElem?_append_left bound).trans queued, here⟩⟩
    · exact ⟨user, .inr completed⟩
  | intr | intrWakeup _ | intrStart => exact located

variable [DecidableEq Buf]

theorem At.call {caller : Process} (located : At ide proc place) (unused : ide.user b = none) :
    At (ide.call caller b fields) proc place := by
  have apart : ∀ {mine}, ide.user mine = some proc → mine ≠ b := by
    rintro mine user rfl
    rw [unused] at user
    cases user
  cases place with
  | queue mine given =>
    have different := apart located.1
    unfold At at located ⊢
    unfold Driver.call
    dsimp only
    rw [update_of_ne different, update_of_ne different]
    exact located
  | wait mine request =>
    have different := apart located.1
    unfold At at located ⊢
    unfold Driver.call
    dsimp only
    rw [update_of_ne different, update_of_ne different]
    exact located
  | intr | intrWakeup _ | intrStart => exact located

/-- The handler takes the first request off the queue. -/
theorem At.complete {rest : List Buf} (located : At ide proc place)
    (head : ide.idequeue = b :: rest) (unfinished : ¬ (ide.bufs b).Done)
    (handler : place ≠ .intr) : At (ide.complete b rest) proc place := by
  have length : (ide.complete b rest).completed.length =
      ide.completed.length + 1 := List.length_append
  cases place with
  | queue mine fields =>
    obtain ⟨user, waiting, absent⟩ := located
    rw [head] at absent
    have different : mine ≠ b := fun same =>
      absent (same ▸ List.mem_cons_self)
    refine ⟨user, ?_, fun member => absent (List.mem_cons_of_mem b member)⟩
    change ¬ (update ide.bufs b _ mine).Done
    rw [update_of_ne different]
    exact waiting
  | wait mine request =>
    obtain ⟨user, ⟨pos, queued, here⟩ | completed⟩ := located
    · rw [head] at queued
      cases pos with
      | zero =>
        cases queued
        refine ⟨user, .inr ?_⟩
        change (ide.completed ++ [(b, ide.served b)])[request]? =
          some (b, update ide.bufs b (ide.served b) b) ∧
          (update ide.bufs b (ide.served b) b).Done
        rw [here, Nat.add_zero, List.getElem?_concat_length, update_self]
        exact ⟨rfl, rfl, rfl⟩
      | succ pos => exact ⟨user, .inl ⟨pos, queued, by rw [length]; omega⟩⟩
    · have different : mine ≠ b := fun same => unfinished (same ▸ completed.2)
      refine ⟨user, .inr ?_⟩
      have bound := (List.getElem?_eq_some_iff.mp completed.1).1
      change (ide.completed ++ [(b, ide.served b)])[request]? =
        some (mine, update ide.bufs b (ide.served b) mine) ∧
        (update ide.bufs b (ide.served b) mine).Done
      rw [update_of_ne different, List.getElem?_append_left bound]
      exact completed
  | intr => exact absurd rfl handler
  | intrWakeup _ | intrStart => exact ⟨rfl, rfl⟩

/-- Another process returns from `iderw`. -/
theorem At.finish {request : Nat} (located : At ide proc place)
    (other : ide.user b ≠ some proc) : At (ide.finish b request) proc place := by
  have apart : ∀ {mine}, ide.user mine = some proc → mine ≠ b := by
    rintro mine user rfl
    exact other user
  cases place with
  | queue mine given =>
    refine ⟨?_, located.2⟩
    exact (update_of_ne (apart located.1) ..).trans located.1
  | wait mine given =>
    refine ⟨?_, located.2⟩
    exact (update_of_ne (apart located.1) ..).trans located.1
  | intr | intrWakeup _ | intrStart => exact located

end Located

section Serves

variable {ide next : Driver Process Buf} {places : Process → Option (Place Buf)}
  {running after : Option Process}

variable {b : Buf}

/-- Another process uses another buffer. -/
theorem user_ne {other : Process} (user : ide.user b = some proc)
    (different : other ≠ proc) : ide.user b ≠ some other := by
  rw [user]
  intro same
  exact different (Option.some.inj same).symm

/-- While one process runs, no other one is between two requests. -/
theorem Serves.alone (serves : Serves initial ide places (some proc))
    {other : Process} {place : Place Buf} (different : other ≠ proc)
    (at_ : places other = some place) : place.between = false := by
  by_contra inside
  have same := serves.between other place at_ (by simpa using inside)
  exact different (Option.some.inj same).symm

theorem Serves.kept (serves : Serves initial ide places (some proc))
    (after : Option Process) (other : Process) (place : Place Buf)
    (different : other ≠ proc) (at_ : places other = some place)
    (between : place.between = true) : after = some other :=
  absurd ((serves.alone different at_).symm.trans between) Bool.false_ne_true

/-- While a command is being worked on, or its interrupt is pending, the
handler has not taken a buffer. -/
theorem Serves.working_of_command (serves : Serves initial ide places running)
    (issued : ide.command ≠ none) : Working ide := by
  refine serves.working fun other inside at_ => ?_
  have located := serves.located other inside at_
  cases inside with
  | queue _ _ | wait _ _ | intr => rfl
  | intrWakeup _ | intrStart => exact absurd located.1 issued

variable [DecidableEq Process]

/-- A process moves, and the driver changes with it. -/
theorem Serves.move {target : Option (Place Buf)} (serves : Serves initial ide places running)
    (sound : ∃ served before, Sound initial next served before)
    (here : ∀ place, target = some place → At next proc place)
    (others : ∀ other place, other ≠ proc → places other = some place →
      At ide other place → At next other place)
    (handler : target = some .intr → ∀ other, places other ≠ some .intr)
    (between : ∀ place, target = some place → place.between = true → after = some proc)
    (kept : ∀ other place, other ≠ proc → places other = some place →
      place.between = true → after = some other)
    (working : (∀ place, target = some place → place.between = false) →
      (∀ other place, other ≠ proc → places other = some place →
        place.between = false) → Working next)
    (busy : next.raised = true → next.command ≠ none) :
    Serves initial next (update places proc target) after := by
  refine ⟨sound, ?_, ?_, ?_, ?_, busy⟩
  · intro other place at_
    by_cases same : other = proc
    · subst same
      rw [update_self] at at_
      exact here place at_
    · rw [update_of_ne same] at at_
      exact others other place same at_ (serves.located other place at_)
  · intro first second one two
    by_cases firstHere : first = proc
    · by_cases secondHere : second = proc
      · exact firstHere.trans secondHere.symm
      · subst firstHere
        rw [update_self] at one
        rw [update_of_ne secondHere] at two
        exact absurd two (handler one second)
    · rw [update_of_ne firstHere] at one
      by_cases secondHere : second = proc
      · subst secondHere
        rw [update_self] at two
        exact absurd one (handler two first)
      · rw [update_of_ne secondHere] at two
        exact serves.handler first second one two
  · intro other place at_
    by_cases same : other = proc
    · subst same
      rw [update_self] at at_
      exact between place at_
    · rw [update_of_ne same] at at_
      exact kept other place same at_
  · intro nobody
    refine working ?_ ?_
    · intro place same
      exact nobody proc place (by rw [update_self, same])
    · intro other place different at_
      exact nobody other place (by rw [update_of_ne different, at_])

/-- The disk works on the head while a process runs elsewhere. -/
theorem Serves.working_of_running
    (serves : Serves initial ide places (some proc)) {place : Place Buf}
    (here : places proc = some place) (elsewhere : place.between = false) : Working ide := by
  refine serves.working fun other inside at_ => ?_
  by_cases same : other = proc
  · subst same
    rw [here] at at_
    cases at_
    exact elsewhere
  · exact serves.alone same at_

/-- The disk is done and `ideintr` is called. -/
theorem Serves.raise {command : Command} (serves : Serves initial ide places running)
    (issued : ide.command = some command) (quiet : ide.raised = false) :
    Serves initial (ide.raise command) (update places proc (some .intr)) running := by
  obtain ⟨served, before, sound⟩ := serves.sound
  have pending : ide.command ≠ none := by
    rw [issued]
    exact Option.some_ne_none command
  have nobody : ∀ other, places other ≠ some .intr := by
    intro other at_
    have raised : ide.raised = true := serves.located other .intr at_
    rw [quiet] at raised
    cases raised
  refine serves.move ⟨served, before, sound.raise issued quiet⟩ ?_ ?_
    (fun _ => nobody) ?_ (fun other place _ => serves.between other place) ?_
    fun _ => pending
  · rintro place ⟨⟩
    rfl
  · intro other place _ at_ located
    refine located.congr rfl rfl rfl rfl (fun _ => rfl) ?_
    cases place with
    | queue _ _ | wait _ _ | intr => rfl
    | intrWakeup _ | intrStart => exact absurd located.1 pending
  · rintro place ⟨⟩ between
    cases between
  · intro _ _
    exact serves.working_of_command pending

variable {fields : Fields}

section

variable (serves : Serves initial ide places (some proc))
include serves

/-- `iderw` queues its buffer behind others. -/
theorem Serves.append (here : places proc = some (.queue b fields)) (busy : ide.idequeue ≠ []) :
    Serves initial (ide.append b) (update places proc (some (.wait b ide.requests.length)))
      (some proc) := by
  obtain ⟨served, before, sound⟩ := serves.sound
  obtain ⟨user, unfinished, fresh⟩ := serves.located proc _ here
  have working := serves.working_of_running here rfl
  have head : (ide.idequeue ++ [b]).head? = ide.idequeue.head? := by
    cases queue : ide.idequeue with
    | nil => exact absurd queue busy
    | cons first rest => rfl
  refine serves.move ⟨served, before, sound.append (by simp [user]) unfinished fresh⟩
    ?_ ?_ (fun same => by cases same) (fun _ _ _ => rfl) ?_ ?_ serves.busy
  · rintro place ⟨⟩
    exact sound.queued_last user
  · intro other place different _ located
    exact located.append (user_ne user different)
  · exact serves.kept _
  · intro _ _
    unfold Working
    change ide.command = (ide.idequeue ++ [b]).head?.map _ ∧
      ∀ other, (ide.idequeue ++ [b]).head? = some other → _
    rw [head]
    exact working

theorem Serves.start (here : places proc = some (.queue b fields)) (idle : ide.idequeue = [])
    (starts : (ide.append b).idestart b = some next) :
    Serves initial next (update places proc (some (.wait b ide.requests.length)))
      (some proc) := by
  obtain ⟨served, before, sound⟩ := serves.sound
  obtain ⟨user, unfinished, fresh⟩ := serves.located proc _ here
  obtain ⟨inside, rfl⟩ := idestart_eq_some starts
  have none : ide.command = none := by
    rw [(serves.working_of_running here rfl).1, idle]
    rfl
  have quiet : ide.raised = false := by
    by_contra raised
    exact serves.busy (by simpa using raised) none
  refine serves.move
    ⟨served, before, (sound.append (by simp [user]) unfinished fresh).started quiet⟩
    ?_ ?_ (fun same => by cases same) (fun _ _ _ => rfl) ?_ ?_
    fun raised => absurd raised Bool.false_ne_true
  · rintro place ⟨⟩
    exact sound.queued_last user
  · intro other place different at_ located
    refine (located.append (user_ne user different)).congr
      rfl rfl rfl rfl ?_ (serves.alone different at_)
    rintro rfl
    exact absurd (quiet.symm.trans located) Bool.false_ne_true
  · exact serves.kept _
  · intro _ _
    unfold Working
    change some _ = (ide.idequeue ++ [b]).head?.map _ ∧
      ∀ other, (ide.idequeue ++ [b]).head? = some other → _
    rw [idle]
    refine ⟨rfl, ?_⟩
    rintro other ⟨⟩
    exact inside

/-- The handler wakes, and goes on to the next request. -/
theorem Serves.wakeup (here : places proc = some (.intrWakeup b)) :
    Serves initial ide (update places proc (some .intrStart)) (some proc) := by
  have located : At ide proc (.intrWakeup b) := serves.located proc _ here
  refine serves.move serves.sound ?_ (fun _ _ _ _ located => located)
    (fun same => by cases same) (fun _ _ _ => rfl)
    (fun other place _ => serves.between other place) ?_ serves.busy
  · rintro place ⟨⟩
    exact located
  · intro elsewhere
    exact absurd (elsewhere _ rfl).symm Bool.false_ne_true

theorem Serves.sleep {request : Nat} (here : places proc = some (.wait b request)) :
    Serves initial ide (update places proc (some (.wait b request))) none := by
  refine serves.move serves.sound ?_ (fun _ _ _ _ located => located)
    (fun same => by cases same) ?_ ?_
    (fun _ _ => serves.working_of_running here rfl) serves.busy
  · rintro place ⟨⟩
    exact serves.located proc _ here
  · rintro place ⟨⟩ between
    cases between
  · exact serves.kept _

/-- The handler has nothing more to start. -/
theorem Serves.rest (here : places proc = some .intrStart) (idle : ide.idequeue = []) :
    Serves initial ide (update places proc none) none := by
  refine serves.move serves.sound (fun _ same => by cases same)
    (fun _ _ _ _ located => located) (fun same => by cases same)
    (fun _ same => by cases same) ?_ ?_ serves.busy
  · exact serves.kept _
  · intro _ _
    unfold Working
    rw [idle]
    exact ⟨(serves.located proc _ here).1, fun other head => by cases head⟩

theorem Serves.startNext {rest : List Buf} (here : places proc = some .intrStart)
    (head : ide.idequeue = b :: rest) (starts : ide.idestart b = some next) :
    Serves initial next (update places proc none) none := by
  obtain ⟨served, before, sound⟩ := serves.sound
  obtain ⟨-, quiet⟩ := serves.located proc _ here
  obtain ⟨inside, rfl⟩ := idestart_eq_some starts
  refine serves.move ⟨served, before, sound.started quiet⟩
    (fun _ same => by cases same) ?_ (fun same => by cases same)
    (fun _ same => by cases same) ?_ ?_
    fun raised => absurd raised Bool.false_ne_true
  · intro other place different at_ located
    refine located.congr rfl rfl rfl rfl ?_ (serves.alone different at_)
    rintro rfl
    exact absurd (quiet.symm.trans located) Bool.false_ne_true
  · exact serves.kept _
  · intro _ _
    unfold Working
    dsimp only
    rw [head]
    refine ⟨rfl, ?_⟩
    rintro other ⟨⟩
    exact inside

end

variable [DecidableEq Buf]

theorem Serves.call (serves : Serves initial ide places running)
    (outside : places proc = none) (unused : ide.user b = none) (unfinished : ¬ fields.Done) :
    Serves initial (ide.call proc b fields)
      (update places proc (some (.queue b fields))) running := by
  obtain ⟨served, before, sound⟩ := serves.sound
  have apart : ∀ other ∈ ide.idequeue, other ≠ b := by
    rintro other member rfl
    exact (sound.used other member).1 unused
  refine serves.move ⟨served, before, sound.call unused⟩ ?_
    (fun _ _ _ _ located => located.call unused)
    (fun same => by cases same) ?_
    (fun other place _ => serves.between other place) ?_ serves.busy
  · rintro place ⟨⟩
    refine ⟨update_self .., ?_, fun member => apart b member rfl⟩
    change ¬ (update ide.bufs b fields b).Done
    rw [update_self]
    exact unfinished
  · rintro place ⟨⟩ between
    cases between
  · intro _ others
    have working := serves.working fun other place at_ =>
      others other place (by rintro rfl; rw [outside] at at_; cases at_) at_
    have same : ∀ other, ide.idequeue.head? = some other →
        (ide.call proc b fields).bufs other = ide.bufs other :=
      fun other head =>
        update_of_ne (apart other (List.mem_of_head? head)) ..
    refine ⟨working.1.trans ?_, fun other head => ?_⟩
    · change ide.idequeue.head?.map _ = ide.idequeue.head?.map _
      cases head : ide.idequeue.head? with
      | none => rfl
      | some first => rw [Option.map_some, Option.map_some, same first head]
    · rw [same other head]
      exact working.2 other head

/-- The handler takes the buffer that the disk has done off the queue. -/
theorem Serves.complete {rest : List Buf} (serves : Serves initial ide places (some proc))
    (here : places proc = some .intr) (head : ide.idequeue = b :: rest) :
    Serves initial (ide.complete b rest) (update places proc (some (.intrWakeup b)))
      (some proc) := by
  obtain ⟨served, before, sound⟩ := serves.sound
  have raised : ide.raised = true := serves.located proc _ here
  obtain ⟨command, inside⟩ := serves.working_of_running here rfl
  rw [head] at command inside
  have unfinished := (sound.used b (by rw [head]; exact List.mem_cons_self)).2
  refine serves.move ⟨_, _, sound.complete head raised command (inside b rfl)⟩
    ?_ ?_ (fun same => by cases same) (fun _ _ _ => rfl) ?_ ?_
    fun raised => absurd raised Bool.false_ne_true
  · rintro place ⟨⟩
    exact ⟨rfl, rfl⟩
  · intro other place different at_ located
    refine located.complete head unfinished ?_
    rintro rfl
    exact different (serves.handler other proc at_ here)
  · exact serves.kept _
  · intro elsewhere
    exact absurd (elsewhere _ rfl).symm Bool.false_ne_true

/-- `iderw` returns. -/
theorem Serves.finish {request : Nat} (serves : Serves initial ide places (some proc))
    (here : places proc = some (.wait b request)) (done : (ide.bufs b).Done) :
    Serves initial (ide.finish b request) (update places proc none) none := by
  obtain ⟨served, before, sound⟩ := serves.sound
  obtain ⟨user, waiting⟩ := serves.located proc _ here
  have completed : ide.completed[request]? = some (b, ide.bufs b) := by
    rcases waiting with ⟨pos, queued, -⟩ | ⟨completed, -⟩
    · exact absurd done (sound.used b (List.mem_of_getElem? queued)).2
    · exact completed
  refine serves.move ⟨served, before, sound.finish done completed⟩
    (fun _ same => by cases same) ?_ (fun same => by cases same)
    (fun _ same => by cases same) ?_
    (fun _ _ => serves.working_of_running here rfl) serves.busy
  · intro other place different _ located
    exact located.finish (user_ne user different)
  · exact serves.kept _

end Serves

section Run

theorem serves_init (disk : Disk) (bufs : Buf → Fields) (sector : Block) :
    Serves disk (init disk bufs sector) (fun _ : Process => none) none where
  sound := by
    refine ⟨[], disk, rfl, rfl, rfl, ?_, List.nodup_nil, ?_, ?_⟩
    · intro raised
      cases raised
    · intro b member
      cases member
    · intro request b fields member
      cases member
  located := fun _ _ at_ => by cases at_
  handler := fun _ _ at_ => by cases at_
  between := fun _ _ at_ => by cases at_
  working := fun _ => ⟨rfl, fun _ head => by cases head⟩
  busy := fun raised => absurd raised Bool.false_ne_true

variable [DecidableEq Buf]

/-- A process sleeps while its buffer is not done, and `ideintr` wakes. -/
theorem wakeful : Wakeful (Driver.code : Code Process (Driver Process Buf) (Place Buf) Buf)
      (fun b ide => ¬ (ide.bufs b).Done)
      (fun b place => place = .intrWakeup b) where
  enter := by
    intro proc ide place next b starts unfinished
    rcases starts_cases starts with ⟨other, fields, -, -, given, rfl⟩ | ⟨command, -, -, -, rfl⟩
    · change ¬ (update ide.bufs other fields b).Done
      by_cases same : b = other
      · subst same
        rw [update_self]
        exact given
      · rw [update_of_ne same]
        exact unfinished
    · exact unfinished
  go := by
    intro proc ide place next target b does
    cases does_of_inside does with
    | start idle starts =>
      obtain ⟨-, rfl⟩ := idestart_eq_some starts
      exact ⟨fun owes => (by cases owes), .inl⟩
    | queue busy => exact ⟨fun owes => (by cases owes), .inl⟩
    | @complete other rest head =>
      refine ⟨fun owes => (by cases owes), fun unfinished => ?_⟩
      by_cases same : b = other
      · exact .inr (congrArg Place.intrWakeup same.symm)
      · refine .inl ?_
        change ¬ (update ide.bufs other _ b).Done
        rw [update_of_ne same]
        exact unfinished
  wakeup := by
    intro proc ide place awake target b does different owes
    subst owes
    cases does
    exact absurd rfl different
  sleep := by
    intro proc ide place asleep target does
    cases does_of_inside does with
    | sleep unfinished => exact ⟨unfinished, fun b owes => by cases owes⟩
  leave := by
    intro proc ide place next b does
    cases does_of_inside does with
    | finish done => exact ⟨fun owes => (by cases owes), id⟩
    | spurious idle => exact ⟨fun owes => (by cases owes), id⟩
    | rest idle => exact ⟨fun owes => (by cases owes), id⟩
    | next head starts =>
      obtain ⟨-, rfl⟩ := idestart_eq_some starts
      exact ⟨fun owes => (by cases owes), id⟩

variable [DecidableEq Process]

/-- The code keeps the invariant. -/
theorem preserves_serves (initial : Disk) :
    Preserves (Driver.code : Code Process (Driver Process Buf) (Place Buf) Buf)
      (Serves initial) where
  enter := by
    intro ide places running proc place next serves outside starts
    rcases starts_cases starts with
      ⟨b, fields, rfl, unused, unfinished, rfl⟩ | ⟨command, rfl, issued, quiet, rfl⟩
    · exact serves.call outside unused unfinished
    · exact serves.raise issued quiet
  take := by
    intro ide places proc place serves here
    refine ⟨serves.sound, serves.located, serves.handler, ?_, serves.working, serves.busy⟩
    intro other inside at_ between
    cases serves.between other inside at_ between
  go := by
    intro ide places proc place next target serves here does
    cases does_of_inside does with
    | start idle starts => exact serves.start here idle starts
    | queue busy => exact serves.append here busy
    | complete head => exact serves.complete here head
  wakeup := by
    intro ide places proc place chan target serves here does
    cases does_of_inside does with
    | wakeup => exact serves.wakeup here
  sleep := by
    intro ide places proc place chan target serves here does
    cases does_of_inside does with
    | sleep unfinished => exact serves.sleep here
  leave := by
    intro ide places proc place next serves here does
    cases does_of_inside does with
    | finish done => exact serves.finish here done
    | spurious idle =>
      -- The interrupt was raised for a command, and so for a queued buffer.
      have raised : ide.raised = true := serves.located proc _ here
      have command := (serves.working_of_running here rfl).1
      rw [idle] at command
      exact absurd command (serves.busy raised)
    | rest idle => exact serves.rest here idle
    | next head starts => exact serves.startNext here head starts

/-- In every state of every run the disk works on the head of the queue unless
the handler is going from one buffer to the next, the buffers are completed
each once and in the order in which they were queued, the results and the disk
are those of the memory disk for the same requests, a call returns with its own
completed buffer, and nobody sleeps on a buffer that is done. -/
theorem refines_memide {disk : Disk} {bufs : Buf → Fields} {sector : Block}
    {actions : List (Action Process (Place Buf))}
    {final : State Process (Driver Process Buf) (Place Buf) Buf}
    (completed : run (State.step Driver.code)
      (idle Process (Driver.init disk bufs sector)) actions = some final) :
    ((final.lock = none ∨ final.data.command ≠ none) → final.data.command =
        final.data.idequeue.head?.map fun b => (final.data.bufs b).command) ∧
    final.data.requests.map Prod.fst = final.data.completed.map Prod.fst ++ final.data.idequeue ∧
    (∃ served before, final.data.requests =
        served ++ final.data.idequeue.map (fun b => (b, final.data.bufs b)) ∧
      memRun disk served = some (before, final.data.completed) ∧
      final.data.disk = if final.data.raised then
        final.data.command.elim before (·.perform before) else before) ∧
    (∀ request b fields, (request, b, fields) ∈ final.data.returned →
      final.data.completed[request]? = some (b, fields)) ∧
    (final.lock = none → ∀ proc b place, final.location proc = .sleep b place .sleeping →
      ¬ (final.data.bufs b).Done) := by
  obtain ⟨locked, serves⟩ := (preserves_serves disk).run (serves_init disk bufs sector) completed
  obtain ⟨served, before, sound⟩ := serves.sound
  refine ⟨?_, ?_, ⟨served, before, sound.requests, sound.performed, sound.disk⟩, sound.returned, ?_⟩
  · rintro (free | issued)
    · refine (serves.working fun proc place at_ => ?_).1
      by_contra inside
      have runs := serves.between proc place at_ (by simpa using inside)
      rw [State.running, free] at runs
      cases runs
    · exact (serves.working_of_command issued).1
  · rw [sound.requests, map_memRun sound.performed, List.map_append, List.map_map]
    exact congrArg _ (List.map_id _)
  · intro free proc b place asleep
    exact wakeful.run completed free asleep

/-- One process writes a block, another one reads the same block meanwhile, and
the interrupts are taken by a third. -/
def writeReadRun : List (Action Nat (Place Nat)) :=
  [.enter 0 (.queue 0 ⟨true, true, 5, 7⟩), .advance 0, .advance 0, .advance 0,
    .advance 0, .advance 0, .advance 0,
    .enter 1 (.queue 1 ⟨false, false, 5, 0⟩), .advance 1, .advance 1,
    .advance 1, .advance 1, .advance 1, .advance 1,
    .enter 2 .intr, .advance 2, .advance 2, .advance 2, .advance 2,
    .enter 2 .intr, .advance 2, .advance 2, .advance 2, .advance 2,
    .advance 1, .advance 1, .advance 0, .advance 0]

theorem refines_memide_writeReadRun :
    ∃ final, run (State.step Driver.code) (idle Nat (Driver.init (fun _ => 0)
        (fun _ : Nat => ⟨false, false, 0, 0⟩) 0)) writeReadRun = some final ∧
      final.data.returned = [(1, 1, ⟨true, false, 5, 7⟩), (0, 0, ⟨true, false, 5, 7⟩)] ∧
      final.data.completed[1]? = some (1, ⟨true, false, 5, 7⟩) := by
  have seen : ((run (State.step Driver.code) (idle Nat (Driver.init
      (fun _ => 0) (fun _ : Nat => ⟨false, false, 0, 0⟩) 0))
      writeReadRun).map fun final => final.data.returned) =
      some [(1, 1, ⟨true, false, 5, 7⟩), (0, 0, ⟨true, false, 5, 7⟩)] := by
    decide +kernel
  obtain ⟨final, completed, returned⟩ := Option.map_eq_some_iff.mp seen
  obtain ⟨-, -, -, own, -⟩ := refines_memide completed
  refine ⟨final, completed, returned, own 1 1 _ ?_⟩
  rw [returned]
  exact List.mem_cons_self

end Run

end Xv6.Ide
