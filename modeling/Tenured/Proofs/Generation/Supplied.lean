import Tenured.Proofs.Generation.Consistency
import Tenured.Proofs.Generation.Room

/-!
# Parts that are supplied

A generation can be built from parts that its maker supplies. The reservation among them holds the
maximum of the configuration, but it may be longer, and more of it may be committed already. What is
committed is bounded by the reservation only, and what is used by what is committed
(`Run.bounded_by_reservation`). So the check of the parts and a resize, which both go by the
maximum, succeed for as long as these happen to stay below it: always, if the reservation has the
maximum size.

If the reservation is longer and no commit is refused, all of it can be committed
(`InLine.growFully_exceeds`) and used (`InLine.allocate_exceeds`). `Run.exceeds_maximum` does so.
-/

namespace Tenured.Generation

open Tenured.Action
open Object (wordSize minWords)

variable {g₀ g : Generation} {r : Region} {ops : List Operation} {out : List Object}
  {s : Setting} {c : Config} {name : String} {level id : Nat} {parts : Parts}

/-- After every run from supplied parts, at most the reservation is committed. The check of the
parts succeeds exactly if the committed part is within the maximum, and a resize exactly if what is
used is, provided that the generation can grow. -/
theorem Run.bounded_by_reservation
    (hc : (ofParts s c name level id parts).outcome = .result g₀) (hf : parts.Fit r)
    (hr : Run g₀ ops out g) :
    ∃ region : Region, g.backing.committedPart = .ok region ∧ region.size ≤ r.size ∧
      (g.verify = .ok () ↔ region.size ≤ c.maxSize) ∧
      (g.objects.top - g.objects.bottom ≤ c.maxSize → g.setup.CanGrow →
        ∀ desiredFree, ∃ g', resize desiredFree g = .ok () g') ∧
      (c.maxSize < g.objects.top - g.objects.bottom → ∀ desiredFree, ∃ size g',
        resize desiredFree g = .error (.releaseBelowTop g.name size g.objects.top) g') := by
  obtain ⟨committed, hasm⟩ := ofParts_assembled hc
  have hin₀ := hasm.inLine hf
  obtain ⟨region, hin⟩ := hr.inLine hin₀
  have hs := hr.setup_eq hin₀
  have ht := hr.tiled hin₀ (tiled_nil hasm.top_eq (hasm.entry_eq hf))
  have hconfig : g.config = c := (config_eq_of_setup hs).trans hasm.config_eq
  have hreserved : g.reserved = r := (reserved_eq_of_setup hs).trans (hasm.reserved_eq_region hf)
  rw [← hconfig, hin.bottom_eq]
  refine ⟨region, hin.committedPart, ?_, ht.verify_iff hin, fun hu hg => ?_, ?_⟩
  · have := hin.start_eq
    have := hin.stop_le
    simp only [Region.size, ← hreserved]
    omega
  · exact hin.exists_resize hg hu
  · exact hin.resize_error

/-! ## Above the maximum -/

section Exceeds

variable {old : Region} {words : Nat} (h : InLine g old) (hg : g.setup.CanGrow)
  (hgr : ∀ n m b, g.setup.grants n m b = true)
include h hg hgr

/-- A reservation above the maximum can be committed, and the check of the parts does not accept
that. -/
theorem InLine.growFully_exceeds (ht : Tiled g out) (hlong : g.config.maxSize < g.reserved.size) :
    ∃ g', Operation.growFully.run g = .ok [] g' ∧ g'.backing.committedPart = .ok g.reserved ∧
      g'.verify ≠ .ok () := by
  obtain ⟨granted, g', hrun, hraised, hstop⟩ := h.exists_growFully hg hgr
  obtain ⟨region, hin⟩ := hraised.changes.inLine h
  have hpart := hraised.committedPart_of_stop h hstop
  have hregion : region = g.reserved := Except.ok.inj (hin.committedPart.symm.trans hpart)
  refine ⟨g', ?_, hpart, fun hv => ?_⟩
  · have hends : Ends Operation.growFully.run g (fun out' g'' => out' = [] ∧ g'' = g')
        fun _ _ => False :=
      ends_bind.2 (ends_get.2 (ends_bind.2 (ends_discard.2 (by rw [Ends, hrun]; exact ⟨rfl, rfl⟩))))
    obtain ⟨_, _, hop, rfl, rfl⟩ := hends.exists_ok
    exact hop
  · have hle := ((hraised.changes.tiled h ht).verify_iff hin).1 hv
    rw [config_eq_of_setup hraised.changes.setup_eq, hregion] at hle
    omega

/-- A block that brings what is used above the maximum can be handed out, and then there is no
resize. -/
theorem InLine.allocate_exceeds (hw : minWords ≤ words)
    (hroom : g.objects.top + words * wordSize ≤ g.reserved.stop)
    (hlong : g.config.maxSize < g.objects.top + words * wordSize - g.objects.bottom) :
    ∃ out' g', (Operation.allocate words).run g = .ok out' g' ∧ ∀ desiredFree, ∃ size g'',
      resize desiredFree g' = .error (.releaseBelowTop g'.name size g'.objects.top) g'' := by
  obtain ⟨g₁, hrun, htop⟩ := allocate_of_le h hg hw hgr hroom
  have hends : Ends (Operation.allocate words).run g
      (fun _ g' => g' = g₁) fun _ _ => False :=
    ends_bind.2 (by rw [Ends, hrun]; exact rfl)
  obtain ⟨out', g', hop, rfl⟩ := hends.exists_ok
  have hchanges := ((Operation.run_ends _ h).of_ok hop).changes
  obtain ⟨region, hin⟩ := hchanges.inLine h
  have hb := h.bottom_eq_of_setup hin hchanges.setup_eq
  refine ⟨out', g', hop, hin.resize_error ?_⟩
  rwa [config_eq_of_setup hchanges.setup_eq, htop, ← hin.bottom_eq, hb]

end Exceeds

/-- Three pages, of which two are the maximum of the smallest configuration. -/
def longRegion : Region := ⟨65536, 77824, by decide⟩

/-- Parts with a reservation of three pages, of which none is committed. -/
def longParts : Parts where
  backing := { base := ⟨⟨65536, 16384, ""⟩, 65536, 77824, 65536, 4096⟩ }
  cards := ⟨.ofSpan longRegion false, .emptyAt 65536⟩

theorem longParts_fit : longParts.Fit longRegion := by
  refine ⟨rfl, rfl, rfl, rfl, ?_, ?_, ?_, ?_, ?_, ?_, rfl, Array.size_replicate⟩
  all_goals decide

/-- A generation of the smallest configuration over a reservation of three pages. -/
def long : Attempt Generation :=
  ofParts ⟨⟨0, 1, 1⟩, {}, {}⟩ smallConfig "long" 1 0 longParts

/-- Two words of it are handed out. -/
theorem Run.bounded_by_reservation_long : ∃ g₀ out g, long.outcome = .result g₀ ∧
    longParts.Fit longRegion ∧ Run g₀ [.handOut 2] out g ∧
    ∃ region : Region, g.backing.committedPart = .ok region ∧ region.size ≤ 12288 := by
  have hrun : ∃ g₀, long.outcome = .result g₀ ∧
      ∃ out g, (Operation.handOut 2).run g₀ = .ok out g := ⟨_, rfl, _, _, rfl⟩
  obtain ⟨g₀, hc, out, g, hr⟩ := hrun
  obtain ⟨region, hpart, hsize, -⟩ :=
    Run.bounded_by_reservation hc longParts_fit (.call .start hr)
  exact ⟨g₀, _, g, hc, longParts_fit, .call .start hr, region, hpart, hsize⟩

/-- It commits three pages, which the check of the parts does not accept, and once three are used
there is no resize. -/
theorem Run.exceeds_maximum : ∃ g₀ g₁ g₂ out, long.outcome = .result g₀ ∧
    Run g₀ [.growFully] [] g₁ ∧ g₁.backing.committedPart = .ok longRegion ∧
    smallConfig.maxSize < longRegion.size ∧ g₁.verify ≠ .ok () ∧
    Run g₀ [.allocate 1536] out g₂ ∧
    ∃ size g, resize 0 g₂ = .error (.releaseBelowTop g₂.name size g₂.objects.top) g := by
  have hnew : ∃ g₀, long.outcome = .result g₀ ∧ g₀.objects.top = 65536 := ⟨_, rfl, rfl⟩
  obtain ⟨g₀, hc, htop⟩ := hnew
  obtain ⟨committed, hasm⟩ := ofParts_assembled hc
  have hin := hasm.inLine longParts_fit
  have hconfig : g₀.setup.config = smallConfig := hasm.config_eq
  have hres : g₀.reserved = longRegion := hasm.reserved_eq_region longParts_fit
  have hcan : g₀.setup.CanGrow :=
    Setup.canGrow_of_false (by rw [hconfig]; rfl) (by rw [hconfig]; rfl)
  have hgr : ∀ n m b, g₀.setup.grants n m b = true := by
    intro n m b
    show g₀.backing.grants n m b = true
    rw [(hasm.backing_base longParts_fit).2.2.1]
    rfl
  have hmax : g₀.config.maxSize = 8192 := by rw [hasm.config_eq]; rfl
  have htiled := tiled_nil hasm.top_eq (hasm.entry_eq longParts_fit)
  obtain ⟨g₁, h₁, hpart, hverify⟩ :=
    hin.growFully_exceeds hcan hgr htiled (by rw [hmax, hres]; decide)
  have hw : minWords ≤ 1536 := by decide
  obtain ⟨out, g₂, h₂, hresize⟩ := hin.allocate_exceeds hcan hgr hw
    (by rw [htop, hres]; decide) (by rw [hmax, ← hasm.top_eq, htop]; decide)
  exact ⟨g₀, g₁, g₂, _, hc, .call .start h₁, hres ▸ hpart, by decide, hverify, .call .start h₂,
    hresize 0⟩

end Tenured.Generation
