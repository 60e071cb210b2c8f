import Stellux.Kernel.Madt
import Stellux.Spec.VectorFilling
import Stellux.Util.Walk

/-!
# Reading the table of interrupt controllers

The loop of the constructor moves by the length byte of each entry. It stays inside the
table and comes to its end exactly when every entry on its way does; on a table that is
tiled by entries it finds all controllers.

## Key results

- `MadtState.entry_reads`: the bytes that one round reads
- `MadtState.entriesFrom_inside`, `MadtState.exists_entriesFrom`: the way of the loop
- `MadtState.entriesFrom_tiles`: the controllers of a tiled table
- `Tiles.localApicsFrom_eq`: the list of `ApStartup` is the list of the entries
-/

namespace Stellux.Kernel

open Stellux.Util

/-! ## The bytes that are read -/

/-- The entry that follows the one at `p`. -/
def nextEntry (m : Mem) (p : Nat) : Nat := p + (m (p + 1)).toNat

/-- The entry at `p` has a length, and what the constructor reads of it is in front of
    `madtEnd`. -/
structure EntryInside (m : Mem) (madtEnd p : Nat) : Prop where
  length_ne : m (p + 1) ≠ 0
  head : p + 2 ≤ madtEnd
  localApic : m p = 0 → p + 8 ≤ madtEnd
  ioApic : m p = 1 → p + 12 ≤ madtEnd

/-- The loop passes an entry at `q`. -/
def PassesEntry (m : Mem) (madtEnd p q : Nat) : Prop :=
  Visits (fun p => madtEnd ≤ p) (nextEntry m) p q

namespace MadtState

/-- What one round reads, the last one first. -/
def entryReads (m : Mem) (p : Nat) : List (Nat × Nat) :=
  (if m p = 0 then
    (if (LocalApicDescriptor.read m p).flags &&& 1 ≠ 0 then [(p, 8)] else []) ++ [(p + 4, 4)]
  else if m p = 1 then [(p + 8, 4), (p + 4, 4)]
  else []) ++ [(p + 1, 1), (p, 1)]

theorem entryReads_end_iff {m : Mem} {madtEnd p : Nat} :
    (∀ r ∈ entryReads m p, r.1 + r.2 ≤ madtEnd) ↔
      p + 2 ≤ madtEnd ∧ (m p = 0 → p + 8 ≤ madtEnd) ∧ (m p = 1 → p + 12 ≤ madtEnd) := by
  unfold entryReads
  split
  · next hzero =>
    have hone : ¬ m p = 1 := by rw [hzero]; decide
    simp only [hone, false_implies, and_true]
    split <;> simp only [List.forall_mem_append, List.forall_mem_cons, List.nil_append, hzero,
      List.not_mem_nil, false_implies, forall_const, and_true] <;> omega
  · next hzero =>
    split
    · next hone =>
      simp only [List.forall_mem_append, List.forall_mem_cons, hone, List.not_mem_nil,
        false_implies, true_implies, and_true, implies_true]
      omega
    · next hone =>
      simp only [List.forall_mem_append, List.forall_mem_cons, hzero, hone, List.not_mem_nil,
        false_implies, and_true, implies_true, true_and]
      omega

theorem le_of_mem_entryReads {m : Mem} {p : Nat} {r : Nat × Nat} (h : r ∈ entryReads m p) :
    p ≤ r.1 := by
  unfold entryReads at h
  split at h
  · split at h <;> simp at h <;> grind
  · split at h <;> simp at h <;> grind

section Loop

variable {A : SlotAllocator LocalApicDescriptor} {B : SlotAllocator IoApic} {m : Mem}
  {madtEnd : Nat}

/-- One round has a result. -/
theorem entry_reads (A : SlotAllocator LocalApicDescriptor) (B : SlotAllocator IoApic) (m : Mem)
    (p : Nat) (s : MadtState) :
    ∃ s', s.entry A B m p = some s' ∧ s'.reads = entryReads m p ++ s.reads := by
  unfold entry entryReads localApicEntry ioApicEntry
  dsimp only
  split
  · split
    · obtain ⟨v, hv⟩ := A.exists_pushBack localApicKind s.localApics (LocalApicDescriptor.read m p)
      refine ⟨_, congrArg _ hv, ?_⟩
      rfl
    · exact ⟨_, rfl, rfl⟩
  · split
    · obtain ⟨v, hv⟩ := B.exists_pushBack ioApicKind s.ioApics
        ⟨BitVec.ofNat 64 (m.readBytes (p + 4) 4), BitVec.ofNat 64 (m.readBytes (p + 8) 4)⟩
      refine ⟨_, congrArg _ hv, ?_⟩
      rfl
    · exact ⟨_, rfl, rfl⟩

theorem entriesFrom_of_le {fuel p : Nat} (h : madtEnd ≤ p) (s : MadtState) :
    entriesFrom A B m madtEnd (fuel + 1) p s = some s := by
  rw [entriesFrom, if_neg (Nat.not_lt.mpr h)]

/-- One round of the loop. -/
theorem entriesFrom_of_lt {fuel p : Nat} (h : p < madtEnd) {s s' : MadtState}
    (hs' : s.entry A B m p = some s') :
    entriesFrom A B m madtEnd (fuel + 1) p s =
      entriesFrom A B m madtEnd fuel (nextEntry m p) s' := by
  rw [entriesFrom, if_pos h, hs']
  rfl

/-- An entry without a length holds the loop up. -/
theorem entriesFrom_stuck {p : Nat} (hp : p < madtEnd) (hzero : m (p + 1) = 0) (fuel : Nat)
    (s : MadtState) : entriesFrom A B m madtEnd fuel p s = none := by
  induction fuel generalizing s with
  | zero => rfl
  | succ fuel ih =>
    obtain ⟨s', hs', -⟩ := entry_reads A B m p s
    rw [entriesFrom_of_lt hp hs', nextEntry, hzero]
    exact ih s'

theorem passesEntry_iff {p q : Nat} :
    PassesEntry m madtEnd p q ↔
      p < madtEnd ∧ (q = p ∨ PassesEntry m madtEnd (nextEntry m p) q) := by
  unfold PassesEntry
  rw [visits_iff, Nat.not_le]

/-- If the loop comes to its end and reads nothing behind the end of the table, every entry
    on its way is inside. -/
theorem entriesFrom_inside {fuel p : Nat} {s s' : MadtState}
    (h : entriesFrom A B m madtEnd fuel p s = some s')
    (hreads : ∀ r ∈ s'.reads, r.1 + r.2 ≤ madtEnd) :
    (∀ r ∈ s.reads, r.1 + r.2 ≤ madtEnd) ∧
      ∀ q, PassesEntry m madtEnd p q → EntryInside m madtEnd q := by
  induction fuel generalizing p s with
  | zero => cases h
  | succ fuel ih =>
    rcases Nat.lt_or_ge p madtEnd with hp | hp
    · obtain ⟨s₁, hs₁, hs₁reads⟩ := entry_reads A B m p s
      -- held up by an entry without a length, the loop would have no result
      have hlength : m (p + 1) ≠ 0 := by
        intro hzero
        rw [entriesFrom_stuck hp hzero] at h
        cases h
      rw [entriesFrom_of_lt hp hs₁] at h
      obtain ⟨hinside, hrest⟩ := ih h
      rw [hs₁reads] at hinside
      -- what this round reads is among all reads
      obtain ⟨hhead, hlocal, hio⟩ := entryReads_end_iff.mp fun r hr =>
        hinside r (List.mem_append_left _ hr)
      refine ⟨fun r hr => hinside r (List.mem_append_right _ hr), fun q hq => ?_⟩
      obtain ⟨-, rfl | hq⟩ := passesEntry_iff.mp hq
      · exact ⟨hlength, hhead, hlocal, hio⟩
      · exact hrest q hq
    · rw [entriesFrom_of_le hp] at h
      cases h
      refine ⟨hreads, fun q hq => ?_⟩
      exact absurd (passesEntry_iff.mp hq).1 (Nat.not_lt.mpr hp)

/-- If every entry on its way is inside, the loop comes to its end, and reads nothing
    outside. -/
theorem exists_entriesFrom (A : SlotAllocator LocalApicDescriptor) (B : SlotAllocator IoApic)
    {fuel p : Nat} (hfuel : madtEnd - p < fuel)
    (h : ∀ q, PassesEntry m madtEnd p q → EntryInside m madtEnd q) (s : MadtState) :
    ∃ s', entriesFrom A B m madtEnd fuel p s = some s' ∧
      ∀ r ∈ s'.reads, r ∈ s.reads ∨ p ≤ r.1 ∧ r.1 + r.2 ≤ madtEnd := by
  induction fuel generalizing p s with
  | zero => omega
  | succ fuel ih =>
    rcases Nat.lt_or_ge p madtEnd with hp | hp
    · obtain ⟨hlength, hhead, hlocal, hio⟩ := h p (passesEntry_iff.mpr ⟨hp, .inl rfl⟩)
      obtain ⟨s₁, hs₁, hs₁reads⟩ := entry_reads A B m p s
      -- every round moves on, so there are no more rounds than bytes
      have hnext : p < nextEntry m p := by
        have hpos : (m (p + 1)).toNat ≠ 0 := fun hzero => hlength (BitVec.eq_of_toNat_eq hzero)
        unfold nextEntry
        omega
      obtain ⟨s', hs', hreads⟩ := ih (by omega)
        (fun q hq => h q (passesEntry_iff.mpr ⟨hp, .inr hq⟩)) s₁
      refine ⟨s', (entriesFrom_of_lt hp hs₁).trans hs', fun r hr => ?_⟩
      rw [hs₁reads] at hreads
      obtain hmem | ⟨hlow, hend⟩ := hreads r hr
      · obtain hmem | hmem := List.mem_append.mp hmem
        · exact .inr ⟨le_of_mem_entryReads hmem,
            entryReads_end_iff.mpr ⟨hhead, hlocal, hio⟩ r hmem⟩
        · exact .inl hmem
      · exact .inr ⟨by omega, hend⟩
    · exact ⟨s, entriesFrom_of_le hp s, fun r hr => .inl hr⟩

end Loop

end MadtState

/-! ## Any table -/

/-- The constructor comes to its end, and reads only bytes of the table. -/
def ReadsInside (A : SlotAllocator LocalApicDescriptor) (B : SlotAllocator IoApic) (m : Mem)
    (desc : Nat) : Prop :=
  ∃ n, ∀ fuel, n ≤ fuel → ∃ s, constructMadt A B fuel m desc = some s ∧
    ∀ r ∈ s.reads, desc ≤ r.1 ∧ r.1 + r.2 ≤ desc + madtLength m desc

/-- The constructor is safe exactly on the tables that contain their own length and whose
    entries, as far as the loop gets, have a length and end inside the table. -/
theorem readsInside_iff (A : SlotAllocator LocalApicDescriptor) (B : SlotAllocator IoApic) (m : Mem)
    (desc : Nat) :
    ReadsInside A B m desc ↔
      8 ≤ madtLength m desc ∧ ∀ q, PassesEntry m (desc + madtLength m desc) (desc + 44) q →
        EntryInside m (desc + madtLength m desc) q := by
  constructor
  · rintro ⟨n, h⟩
    obtain ⟨s, hs, hreads⟩ := h n (Nat.le_refl n)
    obtain ⟨hheader, hentries⟩ := MadtState.entriesFrom_inside hs fun r hr => (hreads r hr).2
    have hlength := hheader (desc + 4, 4) (List.mem_singleton.mpr rfl)
    exact ⟨by dsimp only at hlength; omega, hentries⟩
  · rintro ⟨hlength, hentries⟩
    refine ⟨madtLength m desc + 1, fun fuel hfuel => ?_⟩
    have hrounds : desc + madtLength m desc - (desc + 44) < fuel := by omega
    obtain ⟨s, hs, hreads⟩ := MadtState.exists_entriesFrom A B hrounds hentries
      (MadtState.empty.read (desc + 4) 4)
    refine ⟨s, hs, fun r hr => ?_⟩
    obtain hheader | ⟨hlow, hend⟩ := hreads r hr
    · rw [List.mem_singleton.mp hheader]
      exact ⟨by omega, by dsimp only; omega⟩
    · exact ⟨by omega, hend⟩

open Classical in
/-- The allocator that takes the first free address but null. -/
noncomputable def firstFree (T : Type*) : GrantingAllocator T where
  place m _ := if h : ∃ e, e ≠ 0 ∧ m.heap e = none then Nat.find h else 0
  unused m _ := by
    split
    · next h => exact .inr (Nat.find_spec h).2
    · exact .inl rfl
  granted m _ := by
    rintro ⟨n, hn⟩
    have h : ∃ e, e ≠ 0 ∧ m.heap e = none := ⟨n + 1, Nat.succ_ne_zero n, hn _ (Nat.le_succ n)⟩
    rw [dif_pos h]
    exact (Nat.find_spec h).1

/-- A table of 46 bytes whose only entry has the length zero. -/
def stuckTable : Mem := fun a => if a = 4 then 46 else if a = 44 then 2 else 0

theorem stuckTable_not_readsInside :
    madtLength stuckTable 0 = 46 ∧
      (∀ fuel, constructMadt (firstFree _).toSlotAllocator (firstFree _).toSlotAllocator fuel
        stuckTable 0 = none) ∧
      ¬ ReadsInside (firstFree _).toSlotAllocator (firstFree _).toSlotAllocator stuckTable 0 := by
  have hlength : madtLength stuckTable 0 = 46 := by decide
  have hnone : ∀ fuel, constructMadt (firstFree _).toSlotAllocator (firstFree _).toSlotAllocator fuel
      stuckTable 0 = none := by
    intro fuel
    refine MadtState.entriesFrom_stuck ?_ (by decide) fuel _
    rw [hlength]
    decide
  refine ⟨hlength, hnone, ?_⟩
  rintro ⟨n, h⟩
  obtain ⟨s, hs, -⟩ := h n (Nat.le_refl n)
  rw [hnone] at hs
  cases hs

/-! ## Tables that are tiled by entries -/

/-- An entry of a well-formed table. -/
inductive MadtEntry where
  | localApic (acpiProcessorId apicId : BitVec 8) (flags : BitVec 32)
  | ioApic (ioapicId reserved : BitVec 8) (ioapicAddress globalSystemInterruptBase : BitVec 32)
  /-- An entry of any other type, which the constructor skips. -/
  | other (type length : BitVec 8) (not_localApic : type ≠ 0) (not_ioApic : type ≠ 1)
    (two_le : 2 ≤ length.toNat)

namespace MadtEntry

/-- The number of bytes. -/
def size : MadtEntry → Nat
  | localApic .. => 8
  | ioApic .. => 12
  | other _ length .. => length.toNat

/-- The bytes at `p` are those of the entry; what follows the length of another entry may be
    anything. -/
def At (m : Mem) (p : Nat) : MadtEntry → Prop
  | localApic acpiProcessorId apicId flags =>
    LocalApicDescriptor.read m p = ⟨0, 8, acpiProcessorId, apicId, flags⟩
  | ioApic ioapicId reserved ioapicAddress globalSystemInterruptBase =>
    m p = 1 ∧ m (p + 1) = 12 ∧ m (p + 2) = ioapicId ∧ m (p + 3) = reserved ∧
      m.readBytes (p + 4) 4 = ioapicAddress.toNat ∧
      m.readBytes (p + 8) 4 = globalSystemInterruptBase.toNat
  | other type length .. => m p = type ∧ m (p + 1) = length

/-- The local controller of an entry, if it is one that is enabled. -/
def enabled : MadtEntry → Option LocalApicDescriptor
  | localApic acpiProcessorId apicId flags =>
    if flags &&& 1 ≠ 0 then some ⟨0, 8, acpiProcessorId, apicId, flags⟩ else none
  | ioApic .. => none
  | other .. => none

/-- The I/O controller of an entry, if it is one. -/
def ioApic? : MadtEntry → Option IoApic
  | localApic .. => none
  | ioApic _ _ ioapicAddress globalSystemInterruptBase =>
    some ⟨ioapicAddress.setWidth 64, globalSystemInterruptBase.setWidth 64⟩
  | other .. => none

theorem two_le_size (x : MadtEntry) : 2 ≤ x.size := by
  cases x with
  | localApic => exact (by decide : 2 ≤ 8)
  | ioApic => exact (by decide : 2 ≤ 12)
  | other _ _ _ _ h => exact h

/-- The loop goes on by the size of an entry. -/
theorem At.nextEntry_eq {m : Mem} {p : Nat} {x : MadtEntry} (h : x.At m p) :
    nextEntry m p = p + x.size := by
  cases x with
  | localApic => exact congrArg (p + ·) (congrArg (fun d => d.length.toNat) h)
  | ioApic => exact congrArg (p + ·) (congrArg BitVec.toNat h.2.1)
  | other => exact congrArg (p + ·) (congrArg BitVec.toNat h.2)

end MadtEntry

/-- The entries follow each other from `p` to `madtEnd`. -/
def Tiles (m : Mem) (madtEnd : Nat) : Nat → List MadtEntry → Prop
  | p, [] => p = madtEnd
  | p, x :: xs => x.At m p ∧ Tiles m madtEnd (p + x.size) xs

/-- There is room for the entries. -/
theorem Tiles.length_le {m : Mem} {madtEnd p : Nat} {xs : List MadtEntry}
    (h : Tiles m madtEnd p xs) : p + 2 * xs.length ≤ madtEnd := by
  induction xs generalizing p with
  | nil => exact Nat.le_of_eq h
  | cons x xs ih =>
    have hrest := ih h.2
    have hsize := x.two_le_size
    rw [List.length_cons]
    omega

namespace MadtState

variable (A : GrantingAllocator LocalApicDescriptor) (B : GrantingAllocator IoApic) {m : Mem}

/-- The vectors hold the controllers that were found so far. -/
structure Found (s : MadtState) (localApics : List LocalApicDescriptor) (ioApics : List IoApic) :
    Prop where
  localApics : Filled localApicKind s.localApics localApics
  ioApics : Filled ioApicKind s.ioApics ioApics

theorem found_empty (s : MadtState) (hlocal : s.localApics = empty.localApics)
    (hio : s.ioApics = empty.ioApics) : s.Found [] [] :=
  ⟨hlocal ▸ Filled.empty _, hio ▸ Filled.empty _⟩

/-- One round finds the controller of its entry. -/
theorem Found.entry {s : MadtState} {localApics : List LocalApicDescriptor} {ioApics : List IoApic}
    (h : s.Found localApics ioApics) (hlocal : localApics.length < 2 ^ 32)
    (hio : ioApics.length < 2 ^ 32) {p : Nat} {x : MadtEntry} (hx : x.At m p) :
    ∃ s', s.entry A.toSlotAllocator B.toSlotAllocator m p = some s' ∧
      s'.Found (localApics ++ x.enabled.toList) (ioApics ++ x.ioApic?.toList) := by
  cases x with
  | localApic acpiProcessorId apicId flags =>
    have htype : m p = 0 := congrArg LocalApicDescriptor.type hx
    unfold MadtState.entry localApicEntry
    rw [if_pos htype, show LocalApicDescriptor.read m p = _ from hx]
    dsimp only
    rw [MadtEntry.enabled, MadtEntry.ioApic?, Option.toList_none, List.append_nil]
    -- only enabled controllers are pushed
    split
    · obtain ⟨v, hv, hfilled⟩ := h.localApics.pushBack A
        (⟨0, 8, acpiProcessorId, apicId, flags⟩ : LocalApicDescriptor)
        (show 2 * localApics.length * 8 < 2 ^ 64 by omega)
      exact ⟨_, congrArg _ hv, hfilled, h.ioApics⟩
    · rw [Option.toList_none, List.append_nil]
      exact ⟨_, rfl, h.localApics, h.ioApics⟩
  | ioApic ioapicId reserved ioapicAddress globalSystemInterruptBase =>
    obtain ⟨htype, -, -, -, haddress, hbase⟩ := hx
    unfold MadtState.entry ioApicEntry
    rw [if_neg (by rw [htype]; decide), if_pos htype, haddress, hbase, BitVec.ofNat_toNat,
      BitVec.ofNat_toNat]
    dsimp only
    rw [MadtEntry.enabled, MadtEntry.ioApic?, Option.toList_none, List.append_nil]
    obtain ⟨v, hv, hfilled⟩ := h.ioApics.pushBack B
      (⟨ioapicAddress.setWidth 64, globalSystemInterruptBase.setWidth 64⟩ : IoApic)
      (show 2 * ioApics.length * 16 < 2 ^ 64 by omega)
    exact ⟨_, congrArg _ hv, h.localApics, hfilled⟩
  | other type length hlocalApic hioApic hlength =>
    obtain ⟨htype, -⟩ := hx
    -- entries of other types are passed over
    unfold MadtState.entry
    rw [if_neg (htype ▸ hlocalApic), if_neg (htype ▸ hioApic), MadtEntry.enabled, MadtEntry.ioApic?,
      Option.toList_none, Option.toList_none, List.append_nil, List.append_nil]
    exact ⟨_, rfl, h.localApics, h.ioApics⟩

/-- The loop finds the controllers of all entries. -/
theorem entriesFrom_tiles {madtEnd p : Nat} {xs : List MadtEntry} (hxs : Tiles m madtEnd p xs)
    {s : MadtState} {localApics : List LocalApicDescriptor} {ioApics : List IoApic}
    (h : s.Found localApics ioApics) (hlocal : localApics.length + xs.length < 2 ^ 32)
    (hio : ioApics.length + xs.length < 2 ^ 32) {fuel : Nat} (hfuel : xs.length < fuel) :
    ∃ s', entriesFrom A.toSlotAllocator B.toSlotAllocator m madtEnd fuel p s = some s' ∧
      s'.Found (localApics ++ xs.filterMap MadtEntry.enabled)
        (ioApics ++ xs.filterMap MadtEntry.ioApic?) := by
  induction xs generalizing p s localApics ioApics fuel with
  | nil =>
    obtain ⟨fuel, rfl⟩ := Nat.exists_eq_add_of_lt hfuel
    refine ⟨s, entriesFrom_of_le (Nat.le_of_eq hxs.symm) s, ?_⟩
    rw [List.filterMap_nil, List.filterMap_nil, List.append_nil, List.append_nil]
    exact h
  | cons x xs ih =>
    rw [List.length_cons] at hlocal hio hfuel
    obtain ⟨fuel, rfl⟩ : ∃ k, fuel = k + 1 := ⟨fuel - 1, by omega⟩
    obtain ⟨s₁, hs₁, hfound⟩ := h.entry A B (by omega) (by omega) hxs.1
    have hpos : p < madtEnd := by
      have hroom := hxs.length_le
      rw [List.length_cons] at hroom
      omega
    -- the controller of this entry comes before those of the others
    have hsplit : ∀ {τ : Type} (f : MadtEntry → Option τ),
        (x :: xs).filterMap f = (f x).toList ++ xs.filterMap f := by
      intro τ f
      rw [List.filterMap_cons]
      cases f x <;> rfl
    -- each vector grows by at most one element
    have hone : ∀ {τ : Type} (o : Option τ), o.toList.length ≤ 1 := fun o => by
      cases o with
      | none => exact Nat.zero_le 1
      | some _ => exact Nat.le_refl 1
    have hlocal₁ := hone x.enabled
    have hio₁ := hone x.ioApic?
    obtain ⟨s', hs', hfinal⟩ := ih hxs.2 hfound (by rw [List.length_append]; omega)
      (by rw [List.length_append]; omega) (show xs.length < fuel by omega)
    refine ⟨s', ?_, ?_⟩
    · rw [entriesFrom_of_lt hpos hs₁, hxs.1.nextEntry_eq]
      exact hs'
    · rw [List.append_assoc, List.append_assoc, ← hsplit, ← hsplit] at hfinal
      exact hfinal

end MadtState

/-- The list of the enabled local controllers that `ApStartup` computes is the list of the
    entries. -/
theorem Tiles.localApicsFrom_eq {m : Mem} {madtEnd p : Nat} {xs : List MadtEntry}
    (h : Tiles m madtEnd p xs) {fuel : Nat} (hfuel : xs.length ≤ fuel) :
    Madt.localApicsFrom m madtEnd fuel p = xs.filterMap MadtEntry.enabled := by
  induction xs generalizing p fuel with
  | nil =>
    cases fuel with
    | zero => rfl
    | succ fuel =>
      rw [Madt.localApicsFrom, if_neg (by rw [show p = madtEnd from h]; exact Nat.lt_irrefl _)]
      rfl
  | cons x xs ih =>
    rw [List.length_cons] at hfuel
    obtain ⟨fuel, rfl⟩ : ∃ k, fuel = k + 1 := ⟨fuel - 1, by omega⟩
    -- the entry has at least one byte, so the loop has not ended
    have hpos : p < madtEnd := by
      have hroom := h.length_le
      rw [List.length_cons] at hroom
      omega
    obtain ⟨hx, hxs⟩ := h
    -- the next entry starts where the list says
    have hrest := ih hxs (Nat.le_of_succ_le_succ hfuel)
    rw [← hx.nextEntry_eq, nextEntry] at hrest
    rw [Madt.localApicsFrom, if_pos hpos, List.filterMap_cons]
    dsimp only
    rw [hrest]
    cases x with
    | localApic acpiProcessorId apicId flags =>
      have htype : m p = 0 := congrArg LocalApicDescriptor.type hx
      rw [if_pos htype, show LocalApicDescriptor.read m p = _ from hx, MadtEntry.enabled]
      dsimp only
      split <;> rfl
    | ioApic => rw [if_neg (by rw [hx.1]; decide)]; rfl
    | other _ _ hlocalApic => rw [if_neg (hx.1 ▸ hlocalApic)]; rfl

/-- What the constructor finds in a table that is tiled by entries. -/
theorem Tiles.exists_constructMadt {m : Mem} {desc : Nat} {xs : List MadtEntry}
    (h : Tiles m (desc + madtLength m desc) (desc + 44) xs) (A : GrantingAllocator LocalApicDescriptor)
    (B : GrantingAllocator IoApic) {fuel : Nat} (hfuel : xs.length < fuel) :
    ∃ s, constructMadt A.toSlotAllocator B.toSlotAllocator fuel m desc = some s ∧
      s.Found (xs.filterMap MadtEntry.enabled) (xs.filterMap MadtEntry.ioApic?) := by
  -- a table of less than 2 ^ 32 bytes has fewer entries
  have hlength : madtLength m desc < 2 ^ 32 := Mem.readBytes_lt m (desc + 4) 4
  have hroom := h.length_le
  exact MadtState.entriesFrom_tiles A B h
    (MadtState.found_empty (MadtState.empty.read (desc + 4) 4) rfl rfl)
    (by rw [List.length_nil]; omega) (by rw [List.length_nil]; omega) hfuel

/-- On such a table the vector has the local controllers of the table of `ApStartup`. -/
theorem Tiles.constructMadt_refines {m : Mem} {desc : Nat} {xs : List MadtEntry}
    (h : Tiles m (desc + madtLength m desc) (desc + 44) xs) (A : GrantingAllocator LocalApicDescriptor)
    (B : GrantingAllocator IoApic) {fuel : Nat} (hfuel : xs.length < fuel) :
    ∃ s, constructMadt A.toSlotAllocator B.toSlotAllocator fuel m desc = some s ∧
      s.localApics.1.elements s.localApics.2 = (Madt.construct m desc).localApics.map some := by
  obtain ⟨s, hs, hfound⟩ := h.exists_constructMadt A B hfuel
  have hroom := h.length_le
  refine ⟨s, hs, ?_⟩
  rw [hfound.localApics.elements_eq, Madt.construct]
  exact congrArg _ (h.localApicsFrom_eq (show xs.length ≤ madtLength m desc by omega)).symm

/-- A table that is tiled by entries is read completely. -/
theorem madt_of_tiles (A : GrantingAllocator LocalApicDescriptor) (B : GrantingAllocator IoApic)
    (m : Mem) (desc : Nat) (xs : List MadtEntry)
    (h : Tiles m (desc + madtLength m desc) (desc + 44) xs) :
    ∃ n, ∀ fuel, n ≤ fuel → ∃ s,
      constructMadt A.toSlotAllocator B.toSlotAllocator fuel m desc = some s ∧
      s.localApics.1.elements s.localApics.2 = (xs.filterMap MadtEntry.enabled).map some ∧
      s.ioApics.1.elements s.ioApics.2 = (xs.filterMap MadtEntry.ioApic?).map some := by
  refine ⟨xs.length + 1, fun fuel hfuel => ?_⟩
  obtain ⟨s, hs, hfound⟩ := h.exists_constructMadt A B (Nat.lt_of_succ_le hfuel)
  exact ⟨s, hs, hfound.localApics.elements_eq, hfound.ioApics.elements_eq⟩

/-- A table with a disabled and an enabled local controller, an entry of another type and an
    I/O controller. -/
def sampleTable : List (BitVec 8) :=
  [0, 0, 0, 0, 75, 0, 0, 0] ++ List.replicate 36 0 ++ [0, 8, 1, 0, 0, 0, 0, 0] ++
    [0, 8, 2, 1, 1, 0, 0, 0] ++ [2, 3, 9] ++ [1, 12, 5, 0, 0, 0, 0xc0, 0xfe, 0, 0, 0, 0]

/-- The entries of that table. -/
def sampleEntries : List MadtEntry :=
  [.localApic 1 0 0, .localApic 2 1 1, .other 2 3 (by decide) (by decide) (by decide),
    .ioApic 5 0 0xfec00000 0]

theorem madt_of_tiles_sample :
    Tiles (sampleTable.getD · 0) (0 + madtLength (sampleTable.getD · 0) 0) (0 + 44) sampleEntries ∧
      ∃ n, ∀ fuel, n ≤ fuel → ∃ s,
        constructMadt (firstFree _).toSlotAllocator (firstFree _).toSlotAllocator fuel
          (sampleTable.getD · 0) 0 = some s ∧
        s.localApics.1.elements s.localApics.2 = [some ⟨0, 8, 2, 1, 1⟩] ∧
        s.ioApics.1.elements s.ioApics.2 = [some ⟨0xfec00000, 0⟩] := by
  have htiles : Tiles (sampleTable.getD · 0) (0 + madtLength (sampleTable.getD · 0) 0) (0 + 44)
      sampleEntries := by
    have hlength : madtLength (sampleTable.getD · 0) 0 = 75 := by decide
    rw [hlength]
    refine ⟨?_, ?_, ?_, ?_, rfl⟩
    · exact (by decide : LocalApicDescriptor.read (sampleTable.getD · 0) 44 = ⟨0, 8, 1, 0, 0⟩)
    · exact (by decide : LocalApicDescriptor.read (sampleTable.getD · 0) 52 = ⟨0, 8, 2, 1, 1⟩)
    · exact ⟨by decide, by decide⟩
    · exact ⟨by decide, by decide, by decide, by decide, by decide, by decide⟩
  exact ⟨htiles, madt_of_tiles (firstFree _) (firstFree _) _ 0 sampleEntries htiles⟩

end Stellux.Kernel
