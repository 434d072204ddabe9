import Mathlib.Data.List.DropRight
import Tenured.Event.Log

/-!
# Runs of the event log

A log that goes through calls is described by the calls alone. It is enabled unless the last call
that enables or disables it disables it (`EventLog.enabledAfter`), and it accepts an event that is
offered to it while it is enabled, if the event is no more verbose than its settings say
(`EventLog.Settings.accepted`). Of the events accepted since it was cleared it keeps the last ones,
and of all events accepted it writes those to the journal that the journal admits
(`EventLog.Settings.lines`).

The levels are in the order from the most urgent to the most verbose one, which `Level.upTo` lists.

`EventLog.Follows` says this of a log and a journal. One call keeps to it, whether it accepts an
event (`EventLog.Follows.accept`), accepts none (`EventLog.Follows.keep`) or clears the log, and so
does a run (`EventLog.follows_run`). What comes of it is in `EventLog.run_keeps_last`.
-/

namespace Tenured

/-! ## Levels -/

/-- The levels up to one, from the most urgent one on. -/
def Level.upTo : Level → List Level
  | error => [error]
  | warn => [error, warn]
  | info => [error, warn, info]
  | debug => [error, warn, info, debug]
  | trace => [error, warn, info, debug, trace]

theorem Level.admits_iff {limit level : Level} :
    limit.admits level = true ↔ level ∈ limit.upTo := by
  cases limit <;> cases level <;> decide

namespace EventLog

/-! ## Calls -/

/-- A call of an event log. An event is offered at a moment. -/
inductive Call
  | offer (millis : Int) (e : Event)
  | enable
  | disable
  | clear
deriving DecidableEq

/-- What a call makes of a log and the journal to which it writes. -/
def Call.apply (s : EventLog × Journal) : Call → EventLog × Journal
  | offer millis e => (s.1.record (millis, e), s.1.forward millis e s.2)
  | enable => (s.1.enable, s.2)
  | disable => (s.1.disable, s.2)
  | clear => (s.1.clear, s.2)

/-- A log and its journal after calls. -/
def run (s : EventLog × Journal) (calls : List Call) : EventLog × Journal :=
  calls.foldl Call.apply s

/-! ## What the calls say -/

/-- Whether a call enables or disables a log, if it does one of the two. -/
def Call.switch? : Call → Option Bool
  | enable => some true
  | disable => some false
  | offer .. | clear => none

/-- Whether a call clears a log. -/
def Call.isClear : Call → Bool
  | clear => true
  | offer .. | enable | disable => false

/-- Whether a new log is enabled after calls: as the last call says that enables or disables it. -/
def enabledAfter (calls : List Call) : Bool :=
  (calls.filterMap Call.switch?).getLast?.getD true

/-- The event that a log accepts by a call, with its moment, after the calls before it. -/
def Settings.accepted? (s : Settings) (before : List Call) : Call → Option (Int × Event)
  | .offer millis e =>
    if enabledAfter before = true ∧ e.level ∈ s.level.upTo then some (millis, e) else none
  | .enable | .disable | .clear => none

/-- The events that a log accepts in calls, with their moments, after the calls before them. -/
def Settings.accepted (s : Settings) (before : List Call) : List Call → List (Int × Event)
  | [] => []
  | c :: calls => (s.accepted? before c).toList ++ s.accepted (before ++ [c]) calls

/-- The lines for accepted events in a journal, which keeps lines up to its limit. -/
def Settings.lines (s : Settings) (j : Journal) (accepted : List (Int × Event)) :
    List (Level × String) :=
  if s.forward then
    (accepted.filter fun a => j.limit.any fun limit => a.2.level ∈ limit.upTo).map fun a =>
      (a.2.level, s.render a.1 a.2)
  else []

/-- The calls up to the last one that clears the log. -/
def untilClear (calls : List Call) : List Call :=
  calls.rdropWhile fun c => !c.isClear

/-- The calls after the last one that clears the log. -/
def sinceClear (calls : List Call) : List Call :=
  calls.rtakeWhile fun c => !c.isClear

/-- The calls that do not clear the log. -/
def withoutClears (calls : List Call) : List Call :=
  calls.filter fun c => !c.isClear

/-- The events accepted since the log was cleared, with their moments. -/
def Settings.acceptedSinceClear (s : Settings) (calls : List Call) : List (Int × Event) :=
  s.accepted (untilClear calls) (sinceClear calls)

variable {s : Settings} {j : Journal} {before calls : List Call} {c : Call}
  {acc acc' : List (Int × Event)} {p : EventLog × Journal} {millis : Int} {e : Event}

theorem Call.eq_clear (h : c.isClear = true) : c = .clear := by
  cases c with
  | clear => rfl
  | offer | enable | disable => cases h

theorem Settings.accepted?_clear : s.accepted? calls .clear = none := rfl

theorem Settings.accepted?_congr {after : List Call}
    (h : enabledAfter before = enabledAfter after) :
    s.accepted? before c = s.accepted? after c := by
  cases c with
  | offer => simp only [accepted?, h]
  | enable | disable | clear => rfl

theorem enabledAfter_concat :
    enabledAfter (calls ++ [c]) = c.switch?.getD (enabledAfter calls) := by
  rw [enabledAfter, List.filterMap_append]
  cases c <;> simp [Call.switch?, enabledAfter]

theorem accepted_concat : s.accepted before (calls ++ [c]) =
    s.accepted before calls ++ (s.accepted? (before ++ calls) c).toList := by
  induction calls generalizing before with
  | nil => simp [Settings.accepted]
  | cons d calls ih =>
    rw [List.cons_append, Settings.accepted, ih, Settings.accepted, List.append_assoc,
      List.append_assoc, List.singleton_append]

theorem lines_append : s.lines j (acc ++ acc') = s.lines j acc ++ s.lines j acc' := by
  unfold Settings.lines
  split
  · rw [List.filter_append, List.map_append]
  · rfl

theorem untilClear_append_sinceClear (calls : List Call) :
    untilClear calls ++ sinceClear calls = calls :=
  List.rdropWhile_append_rtakeWhile ..

theorem untilClear_concat (h : c.isClear = false) : untilClear (calls ++ [c]) = untilClear calls :=
  List.rdropWhile_concat_pos _ _ _ (by simp [h])

theorem sinceClear_concat (h : c.isClear = false) :
    sinceClear (calls ++ [c]) = sinceClear calls ++ [c] :=
  List.rtakeWhile_concat_pos _ _ _ (by simp [h])

theorem sinceClear_concat_clear : sinceClear (calls ++ [.clear]) = [] :=
  List.rtakeWhile_concat_neg _ _ _ (by simp [Call.isClear])

theorem acceptedSinceClear_concat (h : c.isClear = false) : s.acceptedSinceClear (calls ++ [c]) =
    s.acceptedSinceClear calls ++ (s.accepted? calls c).toList := by
  rw [Settings.acceptedSinceClear, untilClear_concat h, sinceClear_concat h, accepted_concat,
    untilClear_append_sinceClear, Settings.acceptedSinceClear]

theorem acceptedSinceClear_concat_clear : s.acceptedSinceClear (calls ++ [.clear]) = [] := by
  rw [Settings.acceptedSinceClear, sinceClear_concat_clear, Settings.accepted]

/-! ## One call -/

/-- A log and a journal are what the calls say, where the log was new and the journal was `j`. -/
structure Follows (s : Settings) (j : Journal) (calls : List Call) (p : EventLog × Journal) :
    Prop where
  settings_eq : p.1.settings = s
  enabled_eq : p.1.enabled = enabledAfter calls
  recent_eq : p.1.recent = (s.acceptedSinceClear calls).reverse.take s.limit
  limit_eq : p.2.limit = j.limit
  lines_eq : p.2.lines.toList = j.lines.toList ++ s.lines j (s.accepted [] calls)

theorem follows_nil : Follows s j [] ({ settings := s }, j) where
  settings_eq := rfl
  enabled_eq := rfl
  recent_eq := by simp [Settings.acceptedSinceClear, sinceClear, Settings.accepted]
  limit_eq := rfl
  lines_eq := by simp [Settings.accepted, Settings.lines]

/-- Of the newest events only the newest ones are left after one more. -/
theorem take_cons_take {α : Type} (n : Nat) (x : α) (xs : List α) :
    (x :: xs.take n).take n = (x :: xs).take n := by
  cases n with
  | zero => rfl
  | succ n =>
    rw [List.take_succ_cons, List.take_succ_cons, List.take_take, Nat.min_eq_left (Nat.le_succ n)]

namespace Follows

/-- The log accepts an event exactly if the calls say so. -/
theorem accepted?_offer (h : Follows s j calls p) (millis : Int) (e : Event) :
    s.accepted? calls (.offer millis e) = if p.1.accepts e then some (millis, e) else none := by
  simp only [Settings.accepted?, accepts, h.settings_eq, h.enabled_eq, Bool.and_eq_true,
    Level.admits_iff]

/-- What is written for an event that the log accepts. -/
theorem lines_forward (h : Follows s j calls p) (ha : p.1.accepts e = true) (millis : Int) :
    (p.1.forward millis e p.2).lines.toList = p.2.lines.toList ++ s.lines j [(millis, e)] := by
  have hadmits : p.2.admits e.level = j.limit.any fun limit => e.level ∈ limit.upTo := by
    rw [Journal.admits, h.limit_eq]
    exact congrArg j.limit.any (funext fun limit => Bool.eq_iff_iff.2 (by simp [Level.admits_iff]))
  simp only [forward, ha, h.settings_eq, Bool.true_and, Settings.lines]
  split
  · rw [Journal.lines_write, hadmits]
    split <;> simp [*]
  · rw [List.append_nil]

/-- A call that accepts no event and does not clear the log at most enables or disables it. -/
theorem keep (h : Follows s j calls p) (hc : c.isClear = false) (ha : s.accepted? calls c = none) :
    Follows s j (calls ++ [c]) ({ p.1 with enabled := enabledAfter (calls ++ [c]) }, p.2) where
  settings_eq := h.settings_eq
  enabled_eq := rfl
  recent_eq := by
    rw [acceptedSinceClear_concat hc, ha, Option.toList_none, List.append_nil]
    exact h.recent_eq
  limit_eq := h.limit_eq
  lines_eq := by
    rw [accepted_concat, List.nil_append, ha, Option.toList_none, List.append_nil]
    exact h.lines_eq

theorem accept (h : Follows s j calls p) (ha : p.1.accepts e = true) (millis : Int) :
    Follows s j (calls ++ [.offer millis e])
      (p.1.record (millis, e), p.1.forward millis e p.2) := by
  have haccepted : (s.accepted? calls (.offer millis e)).toList = [(millis, e)] := by
    rw [h.accepted?_offer, if_pos ha, Option.toList_some]
  have hrecord : p.1.record (millis, e) =
      { p.1 with recent := ((millis, e) :: p.1.recent).take p.1.settings.limit } := if_pos ha
  rw [hrecord]
  constructor
  case settings_eq => exact h.settings_eq
  case enabled_eq => rw [enabledAfter_concat]; exact h.enabled_eq
  case recent_eq =>
    rw [acceptedSinceClear_concat rfl, haccepted, List.reverse_append]
    simp only [h.recent_eq, h.settings_eq, take_cons_take, List.reverse_singleton,
      List.singleton_append]
  case limit_eq =>
    simp only [forward]
    split <;> simp [h.limit_eq]
  case lines_eq =>
    rw [accepted_concat, List.nil_append, haccepted, h.lines_forward ha, h.lines_eq, lines_append,
      List.append_assoc]

theorem clear (h : Follows s j calls p) : Follows s j (calls ++ [.clear]) (p.1.clear, p.2) where
  settings_eq := h.settings_eq
  enabled_eq := by rw [enabledAfter_concat]; exact h.enabled_eq
  recent_eq := by
    rw [acceptedSinceClear_concat_clear, List.reverse_nil, List.take_nil]
    rfl
  limit_eq := h.limit_eq
  lines_eq := by
    rw [accepted_concat, List.nil_append, Settings.accepted?_clear, Option.toList_none,
      List.append_nil]
    exact h.lines_eq

/-- One call more keeps a log and a journal to what the calls say. -/
theorem apply (h : Follows s j calls p) (c : Call) :
    Follows s j (calls ++ [c]) (Call.apply p c) := by
  cases c with
  | offer millis e =>
    cases ha : p.1.accepts e with
    | true => exact h.accept ha millis
    | false =>
      have hsame : Call.apply p (.offer millis e) = p := by
        simp [Call.apply, record_of_not_accepts ha, forward, ha]
      have hnone : s.accepted? calls (.offer millis e) = none := by
        rw [h.accepted?_offer, if_neg (by simp [ha])]
      have hkeep := h.keep rfl hnone
      rw [enabledAfter_concat, Call.switch?, Option.getD_none, ← h.enabled_eq] at hkeep
      rw [hsame]
      exact hkeep
  | enable =>
    have hkeep := h.keep (c := .enable) rfl rfl
    rwa [enabledAfter_concat] at hkeep
  | disable =>
    have hkeep := h.keep (c := .disable) rfl rfl
    rwa [enabledAfter_concat] at hkeep
  | clear => exact h.clear

end Follows

/-! ## Runs -/

/-- A new log and a journal are what the calls say after any run. -/
theorem follows_run (s : Settings) (j : Journal) (calls : List Call) :
    Follows s j calls (run ({ settings := s }, j) calls) := by
  induction calls using List.reverseRecOn with
  | nil => exact follows_nil
  | append_singleton calls c ih =>
    rw [run, List.foldl_concat]
    exact ih.apply c

/-! ## What makes no difference to the journal -/

theorem withoutClears_concat : withoutClears (calls ++ [c]) =
    if c.isClear then withoutClears calls else withoutClears calls ++ [c] := by
  rw [withoutClears, List.filter_append, withoutClears]
  cases h : c.isClear <;> simp [h]

theorem enabledAfter_withoutClears (calls : List Call) :
    enabledAfter (withoutClears calls) = enabledAfter calls := by
  induction calls using List.reverseRecOn with
  | nil => rfl
  | append_singleton calls c ih =>
    rw [withoutClears_concat]
    split
    · rename_i hc
      rw [Call.eq_clear hc, enabledAfter_concat, ih]
      rfl
    · rw [enabledAfter_concat, enabledAfter_concat, ih]

/-- Which events are accepted does not depend on when the log was cleared. -/
theorem accepted_withoutClears (s : Settings) (calls : List Call) :
    s.accepted [] (withoutClears calls) = s.accepted [] calls := by
  induction calls using List.reverseRecOn with
  | nil => rfl
  | append_singleton calls c ih =>
    rw [withoutClears_concat, accepted_concat, List.nil_append]
    split
    · rename_i hc
      rw [Call.eq_clear hc, ih, Settings.accepted?_clear, Option.toList_none, List.append_nil]
    · rw [accepted_concat, List.nil_append, ih,
        Settings.accepted?_congr (enabledAfter_withoutClears calls)]

theorem accepted_limit (s : Settings) (limit : Nat) (before calls : List Call) :
    { s with limit }.accepted before calls = s.accepted before calls := by
  induction calls generalizing before with
  | nil => rfl
  | cons c calls ih =>
    rw [Settings.accepted, ih, Settings.accepted]
    cases c <;> rfl

/-- The lines decide what a journal is after a run. -/
theorem Follows.journal_eq {s' : Settings} {calls' : List Call} {p' : EventLog × Journal}
    (h : Follows s j calls p) (h' : Follows s' j calls' p')
    (hl : s.lines j (s.accepted [] calls) = s'.lines j (s'.accepted [] calls')) : p.2 = p'.2 := by
  have hlimit : p.2.limit = p'.2.limit := h.limit_eq.trans h'.limit_eq.symm
  have hlines : p.2.lines = p'.2.lines :=
    Array.toList_inj.1 (by rw [h.lines_eq, h'.lines_eq, hl])
  show (⟨p.2.limit, p.2.lines⟩ : Journal) = ⟨p'.2.limit, p'.2.lines⟩
  rw [hlimit, hlines]

/-! ## All runs -/

/-- A new log keeps the last of the events that were accepted since it was cleared, with their
moments and as many as its limit allows, and writes the lines of all accepted events that the
journal admits, in order and one each. Neither the limit nor when the log was cleared makes a
difference to the journal. -/
theorem run_keeps_last (s : Settings) (j : Journal) (calls : List Call) :
    let p := run ({ settings := s }, j) calls
    p.1.events = (s.acceptedSinceClear calls).rtake s.limit ∧
    p.1.count ≤ s.limit ∧
    p.2.lines.toList = j.lines.toList ++ s.lines j (s.accepted [] calls) ∧
    ∀ limit, (run ({ settings := { s with limit } }, j) (withoutClears calls)).2 = p.2 := by
  intro p
  have h := follows_run s j calls
  refine ⟨?_, ?_, h.lines_eq, fun limit => ?_⟩
  · rw [events, h.recent_eq, List.rtake_eq_reverse_take_reverse]
  · rw [count, h.recent_eq]
    exact List.length_take_le ..
  · refine (follows_run { s with limit } j (withoutClears calls)).journal_eq h ?_
    rw [accepted_limit, accepted_withoutClears]
    rfl

example :
    (run ({ settings := { limit := 2 } }, {})
      [.offer 0 (.grown "old" 1 1 2), .clear, .offer 1 (.grown "old" 2 1 3), .disable,
        .offer 2 (.shrunk "old" 3 1 2), .enable, .offer 3 (.shrunk "old" 3 2 1),
        .offer 4 (.resized "old" 3 1), .offer 5 (.grown "old" 1 1 2)]).1.events =
      [(3, .shrunk "old" 3 2 1), (5, .grown "old" 1 1 2)] := by
  decide

end EventLog

end Tenured
