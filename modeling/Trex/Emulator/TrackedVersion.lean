import Trex.Emulator.TranslationCoherent

/-!
# The version of the tracked writes

Between two moments with the same version no subscribed page has changed: what `Later` says of one
operation holds of any number of them.
-/

namespace Trex.Emulator.Arm64

open List Cpu
open AddressSpace (Inv)

/-- The operations that change an address space; `Clone`, `Mappings` and `TrackedWriteVersion`
only read it. -/
inductive SpaceOp where
  | call (c : Call)
  | trackPageWrites (address : UInt64)
deriving DecidableEq, Repr

/-- One operation on an address space. -/
def perform (m : AddressSpace) : SpaceOp → AddressSpace
  | .call c => (m.exec c).2
  | .trackPageWrites address => m.trackPageWrites address.toNat

variable {m m' m'' : AddressSpace}

lemma Later.refl (hi : Inv m) : Later 0 m m := ⟨hi, fun _ h => h, le_rfl, le_rfl, fun _ => ⟨rfl, fun _ _ => rfl⟩⟩

lemma Later.trans {n k : Nat} (h : Later n m m') (h' : Later k m' m'') : Later (n + k) m m'' := by
  have hlower := h.lower
  have hlower' := h'.lower
  have hupper := h.upper
  have hupper' := h'.upper
  refine ⟨h'.inv, fun page hp => h'.tracked page (h.tracked page hp), by omega, by omega, ?_⟩
  intro hsame
  obtain ⟨hmap, hview⟩ := h.same (by omega)
  obtain ⟨hmap', hview'⟩ := h'.same (by omega)
  refine ⟨hmap'.trans hmap, ?_⟩
  intro x hx
  rw [hview' x (h.tracked _ hx), hview x hx]

/-- One operation moves the version by one at most. -/
lemma later_perform (hi : Inv m) (o : SpaceOp) : Later 1 m (perform m o) := by
  cases o with
  | call c => exact exec_later hi c
  | trackPageWrites address => exact (quiet_trackPageWrites hi address.toNat).later rfl

/-- A sequence of operations moves the version by its length at most. -/
lemma later_run (hi : Inv m) (l : List SpaceOp) : Later l.length m (l.foldl perform m) := by
  induction l generalizing m with
  | nil => exact .refl hi
  | cons o l ih =>
  have hstep := later_perform hi o
  rw [length_cons, Nat.add_comm]
  exact hstep.trans (ih hstep.inv)

/-- A page that has been tracked stays tracked. -/
lemma mem_trackedPages_run {l : List SpaceOp} {address : UInt64} (hi : Inv m)
    (h : .trackPageWrites address ∈ l) : address.toNat / 2 ^ 12 ∈ (l.foldl perform m).trackedPages := by
  obtain ⟨front, back, rfl⟩ := append_of_mem h
  rw [foldl_append, foldl_cons]
  have hstep := later_perform (later_run hi front).inv (.trackPageWrites address)
  exact (later_run hstep.inv back).tracked _ ((mem_trackPageWrites _ _ _).mpr (.inl rfl))

/-- At two moments of a run of fewer than `2 ^ 64` operations with the same version, a page that was
subscribed before the first one has the same bytes and permissions, and the mappings are the same. -/
theorem trackedWriteVersion_sound (limit : Nat) (before between : List SpaceOp)
    (hcount : (before ++ between).length < 2 ^ 64)
    (hsame : trackedWriteVersion ((before ++ between).foldl perform { limit }) =
      trackedWriteVersion (before.foldl perform { limit }))
    {address : UInt64} (hsubscribed : .trackPageWrites address ∈ before) {x : Nat}
    (hx : x / 2 ^ 12 = address.toNat / 2 ^ 12) :
    ((before ++ between).foldl perform { limit }).view x = (before.foldl perform { limit }).view x ∧
      ((before ++ between).foldl perform { limit }).mapping = (before.foldl perform { limit }).mapping := by
  have hpage := mem_trackedPages_run (AddressSpace.inv_new limit) hsubscribed
  have hbef := later_run (AddressSpace.inv_new limit) before
  have hbetw := later_run hbef.inv between
  have hupper := hbef.upper
  have hupper' := hbetw.upper
  have hnew : AddressSpace.trackedVersion { limit } = 0 := rfl
  rw [foldl_append] at hsame ⊢
  rw [length_append] at hcount
  -- the version counts at most the operations, so it has not come round
  have hver := congrArg UInt64.toNat hsame
  simp only [trackedWriteVersion, UInt64.toNat_ofNat'] at hver
  rw [Nat.mod_eq_of_lt (by omega), Nat.mod_eq_of_lt (by omega)] at hver
  obtain ⟨hmap, hview⟩ := hbetw.same hver
  exact ⟨hview x (hx ▸ hpage), hmap⟩

/-- A mapping over the border of two pages, of which the first is subscribed. -/
def subscribedPage : List SpaceOp := [.call (.map 0xfff [7, 8] 3), .trackPageWrites 0xfff]

def otherPage : List SpaceOp := [.call (.writeMemory 0x1000 [2])]

/-- A write to the other page leaves the version and the subscribed page alone. -/
theorem trackedWriteVersion_sound_otherPage :
    let first := subscribedPage.foldl perform { limit := 9 }
    let second := (subscribedPage ++ otherPage).foldl perform { limit := 9 }
    first.view 0xfff = some (7, 3) ∧ first.view 0x1000 = some (8, 3) ∧ second.view 0x1000 = some (2, 3) ∧
      second.view 0xfff = first.view 0xfff ∧ second.mapping = first.mapping := by
  refine ⟨by decide +kernel, by decide +kernel, by decide +kernel, ?_⟩
  have hsubscribed : SpaceOp.trackPageWrites 0xfff ∈ subscribedPage := by simp [subscribedPage]
  exact trackedWriteVersion_sound 9 subscribedPage otherPage (by decide) (by decide +kernel) hsubscribed (by decide)

end Trex.Emulator.Arm64
