import Trex.Emulator.Translation
import Trex.Lib.Bits

/-!
# What a walk reads

`Path` is a successful walk with all descriptors on subscribed pages.  It gives the result of `walk` in
every state that agrees on them and for every address of its page, and a walk with subscriptions leaves
one behind (`path_of_walkLoop`).
-/

namespace Trex.Emulator.Arm64

open Trex.Bits
open AddressSpace (Inv)

/-! ## Addresses of one page -/

section

variable {a b : UInt64}

lemma bit_of_page (h : a >>> 12 = b >>> 12) (i : Nat) (hi : 12 ≤ i) : bit a i = bit b i :=
  bit_congr_of_shiftRight (k := 12) (by omega) h i hi

lemma upper_of_page (h : a >>> 12 = b >>> 12) : upper a = upper b := by
  have hshift : a >>> 55 = b >>> 55 := shiftRight_congr (s := 55) (bit_of_page h) (by omega) (by omega)
  unfold upper
  rw [hshift]

/-- Addresses of a page agree above the offset. -/
lemma virtualAddress_of_page (r : Control) (h : a >>> 12 = b >>> 12) (i : Nat) (hi : 12 ≤ i) :
    bit (virtualAddress r a) i = bit (virtualAddress r b) i := by
  have hbit := bit_of_page h i hi
  unfold virtualAddress
  rw [upper_of_page h]
  split
  · split
    · rw [bit_or, bit_or, hbit]
    · exact hbit
  · split
    · rw [bit_and, bit_and, hbit]
    · exact hbit

lemma virtualAddress_low (r : Control) (a : UInt64) {i : Nat} (hi : i < 12) : bit (virtualAddress r a) i = bit a i := by
  have hset : ∀ i < 12, bit 0xff00000000000000 i = false := by decide
  have hclear : ∀ i < 12, bit 0x00ffffffffffffff i = true := by decide
  unfold virtualAddress
  split
  · split
    · rw [bit_or, hset i hi, Bool.or_false]
    · rfl
  · split
    · rw [bit_and, hclear i hi, Bool.and_true]
    · rfl

variable {r : Control} {va table : UInt64} {level : Nat}

/-- When a translation walks the tables, and from where. -/
lemma start_eq_tables_iff : start r a = .ok (.tables va level table) ↔
      (r.sctlr &&& 1 ≠ 0 ∧ ¬ r.currentEL > 4 ∧ (half r (upper a)).granule = 0 ∧
        ¬ ((half r (upper a)).size < 16 ∨ (half r (upper a)).size > 39) ∧
        virtualAddress r a >>> UInt64.ofNat (64 - (half r (upper a)).size) = (half r (upper a)).expected ∧
        (half r (upper a)).disabled = false) ∧
      va = virtualAddress r a ∧ level = 4 - (64 - (half r (upper a)).size - 12 + 8) / 9 ∧
      table = (half r (upper a)).ttbr &&& 0x0000fffffffff000 := by
  unfold start
  simp only
  split
  next hoff => exact iff_of_false nofun fun h => h.1.1 hoff
  next hon =>
  split
  next hel => exact iff_of_false nofun fun h => h.1.2.1 hel
  next hel =>
  split
  next hgran => exact iff_of_false nofun fun h => hgran h.1.2.2.1
  next hgran =>
  split
  next hsize => exact iff_of_false nofun fun h => h.1.2.2.2.1 hsize
  next hsize =>
  split
  next hhigh => exact iff_of_false nofun fun h => hhigh h.1.2.2.2.2.1
  next hhigh =>
  split
  next hdis =>
    refine iff_of_false nofun fun h => ?_
    rw [h.1.2.2.2.2.2] at hdis
    cases hdis
  next hen =>
  have hconditions := And.intro hon (And.intro hel (And.intro (not_not.mp hgran) (And.intro hsize
    (And.intro (not_not.mp hhigh) (Bool.eq_false_iff.mpr hen)))))
  constructor
  · intro h
    cases h
    exact ⟨hconditions, rfl, rfl, rfl⟩
  · rintro ⟨-, rfl, rfl, rfl⟩
    rfl

/-- The tables a walk begins with are the same all over a page. -/
lemma start_of_page (hs : start r a = .ok (.tables va level table))
    (h : a >>> 12 = b >>> 12) : start r b = .ok (.tables (virtualAddress r b) level table) := by
  obtain ⟨⟨hon, hel, hgran, hsize, hhigh, hen⟩, -, hlevel, htable⟩ := start_eq_tables_iff.mp hs
  rw [upper_of_page h] at hgran hsize hhigh hen hlevel htable
  rw [shiftRight_congr (virtualAddress_of_page r h) (by omega) (by omega)] at hhigh
  exact start_eq_tables_iff.mpr ⟨⟨hon, hel, hgran, hsize, hhigh, hen⟩, rfl, hlevel, htable⟩

end

/-! ## One level -/

lemma bit_mask {n : Nat} (h : n < 64) (i : Nat) : bit (mask n) i = decide (i < n) := by
  rw [mask, if_neg (by omega)]
  exact bit_low h i

lemma bit_offsetMask (i : Nat) : bit 4095 i = decide (i < 12) := Nat.testBit_two_pow_sub_one 12 i

section

variable {r : Control} {a va : UInt64} {acc : Access} {level : Nat} {w w' : Walk} {d : UInt64}

/-- The table starts at a page below 2^48. -/
def Aligned (w : Walk) : Prop := w.table.toNat % 2 ^ 12 = 0 ∧ w.table.toNat < 2 ^ 48

lemma aligned_and (x : UInt64) (w : Walk) (h : w.table = x &&& 0x0000fffffffff000) : Aligned w := by
  unfold Aligned
  rw [h, UInt64.toNat_and]
  constructor
  · rw [Nat.and_mod_two_pow]
    exact Nat.and_zero _
  · exact Nat.lt_of_le_of_lt Nat.and_le_right (by decide)

/-- A descriptor lies in one page. -/
lemma descriptor_page (hw : Aligned w) {x : Nat} (hlo : (descriptorAddress va level w).toNat ≤ x)
    (hhi : x < (descriptorAddress va level w).toNat + 8) :
    x / 2 ^ 12 = (descriptorAddress va level w).toNat / 2 ^ 12 := by
  obtain ⟨hpage, hbound⟩ := hw
  have hidx : (va >>> UInt64.ofNat (levelShift level) &&& 511).toNat ≤ 511 := by
    rw [UInt64.toNat_and]
    exact Nat.and_le_right
  have haddr : (descriptorAddress va level w).toNat =
      w.table.toNat + (va >>> UInt64.ofNat (levelShift level) &&& 511).toNat * 8 := by
    unfold descriptorAddress
    rw [UInt64.toNat_add, UInt64.toNat_mul]
    generalize (va >>> UInt64.ofNat (levelShift level) &&& 511).toNat = index at hidx
    show (w.table.toNat + index * 8 % 2 ^ 64) % 2 ^ 64 = _
    omega
  omega

/-- A table entry leads to the next level, for every address that meets it. -/
lemma descend_table (hd : descend r a va acc level w d = .ok (.inl w')) :
    level < 3 ∧ Aligned w' ∧ ∀ a' va', descend r a' va' acc level w d = .ok (.inl w') := by
  unfold descend at hd ⊢
  simp only at hd ⊢
  split at hd
  · cases hd
  next hkind =>
  simp only [if_neg hkind]
  split at hd
  next htable =>
    simp only [if_pos htable]
    cases hd
    exact ⟨htable.2, aligned_and d _ rfl, fun _ _ => rfl⟩
  · split at hd
    · cases hd
    · split at hd <;> cases hd

/-- The result at another address of the page differs in the offset. -/
lemma descend_result {pa attrs : UInt64} (hd : descend r a va acc level w d = .ok (.inr (pa, attrs)))
    {a' va' : UInt64} (hpage : ∀ i, 12 ≤ i → bit va i = bit va' i) :
    descend r a' va' acc level w d = .ok (.inr ((pa &&& ~~~4095) ||| (va' &&& 4095), attrs)) := by
  unfold descend at hd ⊢
  simp only at hd ⊢
  split at hd
  · cases hd
  next hkind =>
  rw [if_neg hkind]
  split at hd
  · cases hd
  next htable =>
  rw [if_neg htable]
  split at hd
  · cases hd
  next hflag =>
  rw [if_neg hflag]
  split at hd
  · cases hd
  next hdenied =>
  rw [if_neg hdenied]
  cases hd
  congr 3
  have hshift : 12 ≤ levelShift level ∧ levelShift level < 64 := by
    unfold levelShift
    omega
  apply ext
  intro i hi
  simp only [bit_or, bit_and, bit_not _ hi, bit_mask hshift.2, bit_offsetMask]
  rcases Nat.lt_or_ge i 12 with hlow | hhigh
  · have hbelow : i < levelShift level := by omega
    simp [hlow, hbelow]
  · have hnot : ¬ i < 12 := by omega
    simp [hnot, hpage i hhigh]

end

/-! ## States that agree on the subscribed pages -/

/-- A change that a derived result does not see: the bytes on subscribed pages stay. -/
structure Agrees (m m' : AddressSpace) : Prop where
  inv : Inv m'
  tracked : ∀ page ∈ m.trackedPages, page ∈ m'.trackedPages
  view : ∀ x, x / 2 ^ 12 ∈ m.trackedPages → m'.view x = m.view x

/-- A read or a subscription. -/
structure Quiet (m m' : AddressSpace) : Prop where
  inv : Inv m'
  tracked : ∀ page ∈ m.trackedPages, page ∈ m'.trackedPages
  view : m'.view = m.view
  version : m'.trackedVersion = m.trackedVersion

namespace Quiet

variable {m m' m'' : AddressSpace}

lemma refl (hi : Inv m) : Quiet m m := ⟨hi, fun _ h => h, rfl, rfl⟩

lemma trans (h : Quiet m m') (h' : Quiet m' m'') : Quiet m m'' :=
  ⟨h'.inv, fun page hp => h'.tracked page (h.tracked page hp), h'.view.trans h.view, h'.version.trans h.version⟩

lemma agrees (h : Quiet m m') : Agrees m m' := ⟨h.inv, h.tracked, fun x _ => congrFun h.view x⟩

end Quiet

section

variable {m m' : AddressSpace}

lemma mem_trackPageWrites (m : AddressSpace) (a page : Nat) :
    page ∈ (m.trackPageWrites a).trackedPages ↔ page = a / 2 ^ 12 ∨ page ∈ m.trackedPages := by
  unfold AddressSpace.trackPageWrites
  simp only
  split
  next hmem =>
    constructor
    · exact Or.inr
    · rintro (rfl | h)
      · exact hmem
      · exact h
  · exact List.mem_cons

/-- Tracking a page changes nothing that is seen. -/
lemma quiet_trackPageWrites (hi : Inv m) (a : Nat) : Quiet m (m.trackPageWrites a) := by
  refine ⟨{ hi with filter := ?_ }, ?_, rfl, rfl⟩
  · intro page hp
    show Function.update m.trackedFilter (AddressSpace.filterBit (a / 2 ^ 12)) true
      (AddressSpace.filterBit page) = true
    by_cases hbit : AddressSpace.filterBit page = AddressSpace.filterBit (a / 2 ^ 12)
    · rw [hbit, Function.update_self]
    · rw [Function.update_of_ne hbit]
      rcases (mem_trackPageWrites m a page).mp hp with rfl | hp
      · exact absurd rfl hbit
      · exact hi.filter page hp
  · intro page hp
    exact (mem_trackPageWrites m a page).mpr (.inr hp)

/-- A read changes nothing that is seen. -/
lemma quiet_readMemory (hi : Inv m) (a size : Nat) (acc : Access) :
    Quiet m (m.readMemory a size acc).2 := by
  obtain ⟨cache, hstate, hi'⟩ := AddressSpace.readMemory_state hi a size acc
  rw [hstate]
  exact ⟨hi', fun _ h => h, rfl, rfl⟩

lemma readDescriptor_congr (hi : Inv m) (hi' : Inv m') {a d : UInt64}
    (hview : ∀ x, a.toNat ≤ x → x < a.toNat + 8 → m'.view x = m.view x)
    (h : (readDescriptor m a).1 = .ok d) : (readDescriptor m' a).1 = .ok d := by
  change (m.readMemory a.toNat 8 Read).1.map _ = .ok d at h
  show (m'.readMemory a.toNat 8 Read).1.map _ = .ok d
  cases hread : (m.readMemory a.toNat 8 Read).1 with
  | error e =>
    rw [hread] at h
    cases h
  | ok l =>
  obtain ⟨hacc, hall, hl⟩ := (AddressSpace.readMemory_ok_iff hi _ _ _ _).mp hread
  have hread' : (m'.readMemory a.toNat 8 Read).1 = .ok l := by
    refine (AddressSpace.readMemory_ok_iff hi' _ _ _ _).mpr ⟨hacc, ?_, ?_⟩
    · intro x hlo hhi
      rw [hview x hlo hhi]
      exact hall x hlo hhi
    · rw [hl]
      apply List.map_congr_left
      intro k hk
      have hlt := List.mem_range.mp hk
      rw [hview _ (by omega) (by omega)]
  rw [hread] at h
  rw [hread']
  exact h

end

/-! ## Walks on subscribed pages -/

/-- A walk from a level on that gives `result` and reads subscribed pages only. -/
inductive Path (r : Control) (m : AddressSpace) (address va : UInt64) (access : Access) (result : UInt64 × UInt64) :
    Nat → Walk → Prop where
  | leaf {level : Nat} {w : Walk} {d : UInt64} (haligned : Aligned w) (hlevel : level ≤ 3)
      (htracked : (descriptorAddress va level w).toNat / 2 ^ 12 ∈ m.trackedPages)
      (hread : (readDescriptor m (descriptorAddress va level w)).1 = .ok d)
      (hd : descend r address va access level w d = .ok (.inr result)) :
      Path r m address va access result level w
  | next {level : Nat} {w w' : Walk} {d : UInt64} (haligned : Aligned w) (hlevel : level ≤ 3)
      (htracked : (descriptorAddress va level w).toNat / 2 ^ 12 ∈ m.trackedPages)
      (hread : (readDescriptor m (descriptorAddress va level w)).1 = .ok d)
      (hd : descend r address va access level w d = .ok (.inl w'))
      (rest : Path r m address va access result (level + 1) w') :
      Path r m address va access result level w

section

variable {r : Control} {m m' : AddressSpace} {a va : UInt64} {acc : Access} {result : UInt64 × UInt64}
  {level : Nat} {w : Walk}

/-- Descriptors in tracked pages are read alike. -/
lemma read_of_agrees (hi : Inv m) (h : Agrees m m') (haligned : Aligned w)
    (htracked : (descriptorAddress va level w).toNat / 2 ^ 12 ∈ m.trackedPages) {d : UInt64}
    (hread : (readDescriptor m (descriptorAddress va level w)).1 = .ok d) :
    (readDescriptor m' (descriptorAddress va level w)).1 = .ok d := by
  refine readDescriptor_congr hi h.inv ?_ hread
  intro x hlo hhi
  apply h.view
  rw [descriptor_page haligned hlo hhi]
  exact htracked

/-- A path through tracked tables stays as long as their bytes do. -/
lemma Path.mono (hi : Inv m) (h : Agrees m m') (hp : Path r m a va acc result level w) :
    Path r m' a va acc result level w := by
  induction hp with
  | leaf haligned hlevel htracked hread hd =>
    exact .leaf haligned hlevel (h.tracked _ htracked) (read_of_agrees hi h haligned htracked hread) hd
  | next haligned hlevel htracked hread hd _ ih =>
    exact .next haligned hlevel (h.tracked _ htracked) (read_of_agrees hi h haligned htracked hread) hd ih

/-- A path for one address of a page is one for all of them. -/
lemma Path.page {pa attrs a' va' : UInt64} (hpage : ∀ i, 12 ≤ i → bit va i = bit va' i)
    (hp : Path r m a va acc (pa, attrs) level w) :
    Path r m a' va' acc ((pa &&& ~~~4095) ||| (va' &&& 4095), attrs) level w := by
  have hsame : ∀ level w, descriptorAddress va level w = descriptorAddress va' level w := by
    intro level w
    unfold descriptorAddress
    rw [shiftRight_congr hpage (by unfold levelShift; omega) (by unfold levelShift; omega)]
  induction hp with
  | leaf haligned hlevel htracked hread hd =>
    rw [hsame] at htracked hread
    exact .leaf haligned hlevel htracked hread (descend_result hd hpage)
  | next haligned hlevel htracked hread hd _ ih =>
    rw [hsame] at htracked hread
    exact .next haligned hlevel htracked hread ((descend_table hd).2.2 _ _) ih

lemma quiet_track (hi : Inv m) (track : Bool) (loc : Nat) :
    Quiet m (if track then m.trackPageWrites loc else m) := by
  cases track with
  | false => exact .refl hi
  | true => exact quiet_trackPageWrites hi loc

lemma quiet_readDescriptor (hi : Inv m) (loc : UInt64) : Quiet m (readDescriptor m loc).2 :=
  quiet_readMemory hi loc.toNat 8 Read

/-- A walk changes nothing that is seen. -/
lemma quiet_walkLoop (r : Control) (track : Bool) (a va : UInt64) (acc : Access) :
    ∀ turns level w (m : AddressSpace), Inv m → Quiet m (walkLoop r track a va acc turns level w m).2 := by
  intro turns
  induction turns with
  | zero =>
    intro level w m hi
    exact .refl hi
  | succ turns ih =>
  intro level w m hi
  have htrack := quiet_track hi track (descriptorAddress va level w).toNat
  have hread := htrack.trans (quiet_readDescriptor htrack.inv (descriptorAddress va level w))
  rw [walkLoop]
  split
  next e m' heq =>
    rw [heq] at hread
    exact hread
  next d m' heq =>
  rw [heq] at hread
  split
  · exact hread
  · exact hread
  · exact hread.trans (ih _ _ _ hread.inv)

/-- A turn of the loop at a subscribed descriptor of `m`, in a state that differs from `m` in caches only. -/
lemma walkLoop_turn {d : UInt64} (hi : Inv m) (haligned : Aligned w)
    (htracked : (descriptorAddress va level w).toNat / 2 ^ 12 ∈ m.trackedPages)
    (hread : (readDescriptor m (descriptorAddress va level w)).1 = .ok d) (track : Bool) (turns : Nat)
    (hquiet : Quiet m m') : ∃ m'', Quiet m m'' ∧ walkLoop r track a va acc (turns + 1) level w m' =
      match descend r a va acc level w d with
      | .error f => (.error f, m'')
      | .ok (.inr result) => (.ok result, m'')
      | .ok (.inl w') => walkLoop r track a va acc turns (level + 1) w' m'' := by
  have htrack := hquiet.trans (quiet_track hquiet.inv track (descriptorAddress va level w).toNat)
  have hread' := read_of_agrees hi htrack.agrees haligned htracked hread
  refine ⟨_, htrack.trans (quiet_readDescriptor htrack.inv (descriptorAddress va level w)), ?_⟩
  rw [walkLoop]
  split
  next e m'' heq =>
    rw [heq] at hread'
    cases hread'
  next d' m'' heq =>
  rw [heq] at hread' ⊢
  cases hread'
  rfl

/-- A path is followed by every walk that begins there. -/
lemma Path.walkLoop_eq (hi : Inv m) (hp : Path r m a va acc result level w) :
    ∀ (track : Bool) (turns : Nat) (m' : AddressSpace), level + turns = 4 → Quiet m m' →
      (walkLoop r track a va acc turns level w m').1 = .ok result := by
  induction hp with
  | leaf haligned hlevel htracked hread hd =>
    intro track turns m' hturns hquiet
    obtain ⟨turns, rfl⟩ : ∃ n, turns = n + 1 := ⟨turns - 1, by omega⟩
    obtain ⟨m'', -, hturn⟩ := walkLoop_turn hi haligned htracked hread track turns hquiet
    rw [hturn, hd]
  | next haligned hlevel htracked hread hd _ ih =>
    intro track turns m' hturns hquiet
    obtain ⟨turns, rfl⟩ : ∃ n, turns = n + 1 := ⟨turns - 1, by omega⟩
    obtain ⟨m'', haft, hturn⟩ := walkLoop_turn hi haligned htracked hread track turns hquiet
    rw [hturn, hd]
    exact ih track turns m'' (by omega) haft

/-- A walk that succeeds leaves a path through tracked tables. -/
lemma path_of_walkLoop : ∀ turns level w (m : AddressSpace), level + turns = 4 → Aligned w → Inv m →
      (walkLoop r true a va acc turns level w m).1 = .ok result →
      Path r (walkLoop r true a va acc turns level w m).2 a va acc result level w := by
  intro turns
  induction turns with
  | zero =>
    intro level w m _ _ _ h
    cases h
  | succ turns ih =>
  intro level w m hturns haligned hi h
  have htrack := quiet_trackPageWrites hi (descriptorAddress va level w).toNat
  have haft := quiet_readDescriptor htrack.inv (descriptorAddress va level w)
  have hsubs : (descriptorAddress va level w).toNat / 2 ^ 12 ∈
      (m.trackPageWrites (descriptorAddress va level w).toNat).trackedPages :=
    (mem_trackPageWrites _ _ _).mpr (.inl rfl)
  rw [walkLoop] at h ⊢
  simp only [if_true] at h ⊢
  cases heq : readDescriptor (m.trackPageWrites (descriptorAddress va level w).toNat)
    (descriptorAddress va level w) with
  | mk read m' =>
  rw [heq] at h haft
  have hread : (readDescriptor (m.trackPageWrites (descriptorAddress va level w).toNat)
      (descriptorAddress va level w)).1 = read := by rw [heq]
  cases read with
  | error e => cases h
  | ok d =>
  simp only at h ⊢
  cases hd : descend r a va acc level w d with
  | error f =>
    rw [hd] at h
    cases h
  | ok next =>
  rw [hd] at h
  cases next with
  | inr found =>
    cases h
    exact .leaf haligned (by omega) (haft.tracked _ hsubs)
      (read_of_agrees htrack.inv haft.agrees haligned hsubs hread) hd
  | inl w' =>
  simp only at h ⊢
  have hrest := quiet_walkLoop r true a va acc turns (level + 1) w' m' haft.inv
  have hall := haft.trans hrest
  exact .next haligned (by omega) (hall.tracked _ hsubs)
    (read_of_agrees htrack.inv hall.agrees haligned hsubs hread) hd
    (ih _ _ _ (by omega) (descend_table hd).2.1 haft.inv h)

end

end Trex.Emulator.Arm64
