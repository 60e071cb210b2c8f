import Stellux.Spec.HeapRuns

/-!
# The heap on lists

An executable heap without memory: the segments as a list, the calls as functions on
it. It follows the code, with its links back, and stops (`none`) only where a `free`
would go by a link that names neither a used segment of the chain nor the neighbour.

## Key results

- `Refines.step`: what the list heap does, the heap in memory does
- `run_refines`: so whole runs can be computed on lists
-/

namespace Stellux.Kernel

open Stellux.Util HeapSegmentHeader Tile DynamicMemoryAllocator

/-- A segment whose flags are only the free bit. -/
abbrev Shape := Tile Bool

namespace Segment

/-- The segment without the reserved bits of its flags. -/
def shape (s : Segment) : Shape :=
  { start := s.start, size := s.size, prev := s.prev, tag := s.isFree }

theorem shape_mark (s : Segment) (b : Bool) : (s.mark b).shape = { s.shape with tag := b } := by
  rw [shape, isFree_mark]
  rfl

end Segment

/-- The segments of the heap and the live blocks. -/
structure ListHeap where
  segs : List Shape
  live : List (Nat × Nat)
  deriving DecidableEq, Repr

namespace ListHeap

/-- The first segment with a property, and what is before and after it. -/
def locate (p : Shape → Bool) : List Shape → Option (List Shape × Shape × List Shape)
  | [] => none
  | s :: l => if p s then some ([], s, l) else (locate p l).map fun r => (s :: r.1, r.2)

/-- Cut a segment after `n` bytes of memory, if both parts have room. -/
def cut (n : Nat) (s : Shape) : List Shape :=
  if n + 2 * sizeofHeader + 2 ≤ s.size ∧ s.size < n + 2 * sizeofHeader + 2 ^ 63 then
    [s.leftPart (n + sizeofHeader), s.rightPart (n + sizeofHeader) s.tag]
  else [s]

/-- `allocate`: the first free segment with room for a header is cut and marked. -/
def allocate (n : Nat) (segs : List Shape) : Option (Nat × List Shape) :=
  match locate (fun s => s.tag && decide (n + 2 * sizeofHeader ≤ s.size)) segs with
  | none => none
  | some (l₁, s, l₂) =>
    match cut n s with
    | [left, right] =>
      some (s.start + sizeofHeader, l₁ ++ { left with tag := false } :: right :: l₂)
    | _ => none

/-- The freed segment and what follows it. -/
def freeNext (s : Shape) : List Shape → List Shape
  | [] => [{ s with tag := true }]
  | t :: l =>
    if t.tag then { s with tag := true, size := s.size + t.size } :: relink s.start l
    else { s with tag := true } :: t :: l

/-- A segment and what follows it, joined with the first one that follows. -/
def joinFirst (q : Shape) : List Shape → List Shape
  | [] => [q]
  | s :: l => q.join s :: relink q.start l

/-- `free` of the segment at `seg`. -/
def free (seg : Nat) (segs : List Shape) : Option (List Shape) :=
  match locate (fun s => s.start == seg) segs with
  | none => none
  | some (l₁, s, l₂) =>
    let rest := freeNext s l₂
    if s.prev = 0 ∨ (l₁ ++ rest).any (fun u => u.start == s.prev && !u.tag) = true then
      some (l₁ ++ rest)
    else
      match l₁.getLast? with
      | none => none
      | some q =>
        if q.start = s.prev ∧ q.tag = true then some (l₁.dropLast ++ joinFirst q rest) else none

/-- One call. The clients keep the discipline of `HeapState.allowed`. -/
def step (h : DynamicMemoryAllocator) (s : ListHeap) : HeapCall → Option ListHeap
  | .allocate n =>
    if n ≤ h.heapSize then
      match allocate n s.segs with
      | none => some s
      | some (p, segs) => some { segs, live := (p, n) :: s.live }
    else none
  | .free p =>
    if s.live.any fun b => b.1 == p then
      (free (p - sizeofHeader) s.segs).map fun segs =>
        { segs, live := HeapState.without s.live p }
    else none
  | .reallocate p n =>
    if (s.live.any fun b => b.1 == p) = true ∧ n ≤ h.heapSize then
      match locate (fun u => u.start + sizeofHeader == p) s.segs with
      | none => none
      | some (l₁, u, l₂) =>
        if n + sizeofHeader ≤ u.size then
          some { segs := l₁ ++ cut n u ++ l₂, live := (p, n) :: HeapState.without s.live p }
        else
          match allocate n s.segs with
          | none => some s
          | some (q, mid) =>
            (free u.start mid).map fun segs =>
              { segs, live := (q, n) :: HeapState.without s.live p }
    else none
  | .write x _ =>
    if s.live.any fun b => decide (b.1 ≤ x) && decide (x < b.1 + b.2) then some s else none

/-! ## Lists of segments and their shapes -/

variable {h : DynamicMemoryAllocator} {m : Mem} {s u : Segment} {segs k₁ k₂ : List Segment}
  {n seg : Nat}

theorem locate_some {p : Shape → Bool} {l₁ l₂ : List Shape} {t : Shape}
    (hloc : locate p (segs.map Segment.shape) = some (l₁, t, l₂)) :
    ∃ (k₁ : List Segment) (u : Segment) (k₂ : List Segment), segs = k₁ ++ u :: k₂ ∧
      l₁ = k₁.map Segment.shape ∧ t = u.shape ∧ l₂ = k₂.map Segment.shape ∧ p t = true ∧
      ∀ v ∈ k₁, p v.shape = false := by
  induction segs generalizing l₁ with
  | nil => simp [locate] at hloc
  | cons s l ih =>
    rw [List.map_cons, locate] at hloc
    by_cases hs : p s.shape = true
    · simp only [hs, if_true, Option.some.injEq, Prod.mk.injEq] at hloc
      obtain ⟨rfl, rfl, rfl⟩ := hloc
      exact ⟨[], s, l, rfl, rfl, rfl, rfl, hs, by simp⟩
    · simp only [hs, Bool.false_eq_true, if_false, Option.map_eq_some_iff, Prod.mk.injEq] at hloc
      obtain ⟨⟨l₁', t', l₂'⟩, hloc, rfl, rfl, rfl⟩ := hloc
      obtain ⟨k₁, u, k₂, rfl, rfl, rfl, rfl, hu, hk⟩ := ih hloc
      refine ⟨s :: k₁, u, k₂, rfl, rfl, rfl, rfl, hu, ?_⟩
      simpa [hs] using hk

theorem locate_none {p : Shape → Bool} (hloc : locate p (segs.map Segment.shape) = none) :
    ∀ v ∈ segs, p v.shape = false := by
  induction segs with
  | nil => simp
  | cons s l ih =>
    rw [List.map_cons, locate] at hloc
    by_cases hs : p s.shape = true
    · simp [hs] at hloc
    · simp only [hs, Bool.false_eq_true, if_false, Option.map_eq_none_iff] at hloc
      simpa [hs] using ih hloc

@[simp] theorem map_shape_relink (p : Nat) (l : List Segment) :
    (relink p l).map Segment.shape = relink p (l.map Segment.shape) := by
  cases l <;> rfl

theorem map_shape_freeNext (s : Segment) (l : List Segment) :
    (Kernel.freeNext s l).map Segment.shape = freeNext s.shape (l.map Segment.shape) := by
  cases l with
  | nil => simp [Kernel.freeNext, freeNext, Segment.shape_mark]
  | cons t l =>
    by_cases ht : t.isFree = true
    · have hjoin : Segment.shape ((s.mark true).join t)
          = { s.shape with tag := true, size := s.size + t.size } :=
        congrArg (fun x : Shape => { x with size := s.size + t.size }) (s.shape_mark true)
      rw [Kernel.freeNext, if_pos ht, List.map_cons, List.map_cons, freeNext, hjoin,
        map_shape_relink, if_pos (show t.shape.tag = true from ht)]
      rfl
    · rw [Kernel.freeNext, if_neg ht, List.map_cons, List.map_cons, freeNext, Segment.shape_mark,
        if_neg (show ¬ t.shape.tag = true from ht)]

theorem map_shape_joinFirst (q : Segment) (l : List Segment) :
    (Kernel.joinFirst q l).map Segment.shape = joinFirst q.shape (l.map Segment.shape) := by
  cases l with
  | nil => rfl
  | cons s l => rw [Kernel.joinFirst, List.map_cons, map_shape_relink]; rfl

theorem backLinked_map_shape {segs : List Segment} {p : Nat} :
    BackLinked p (segs.map Segment.shape) ↔ BackLinked p segs := by
  induction segs generalizing p with
  | nil => exact .rfl
  | cons s l ih => simp only [List.map_cons, BackLinked, Segment.shape, ih]

/-! ## The calls -/

/-- Where the heap in memory splits, the list heap cuts. -/
theorem cut_shape (hc : HeapChain h m (k₁ ++ s :: k₂)) (hle : n + sizeofHeader ≤ s.size) :
    ((splitSegment m s.start (n + sizeofHeader)).1 = true → cut n s.shape
      = [s.shape.leftPart (n + sizeofHeader), s.shape.rightPart (n + sizeofHeader) s.isFree]) ∧
    ((splitSegment m s.start (n + sizeofHeader)).1 = false → cut n s.shape = [s.shape]) := by
  have hsize : HeapSegmentHeader.size m s.start = s.shape.size := size_of_read hc.stored.read_eq
  have hiff := splitSegment_done_iff m s.start (n + sizeofHeader) (by rw [hsize]; exact hle)
  rw [hsize] at hiff
  refine ⟨fun hdone => if_pos ?_, fun hrefused => if_neg fun hroom => ?_⟩
  · have := hiff.mp hdone
    omega
  · rw [hiff.mpr (by omega)] at hrefused
    simp at hrefused

theorem shape_rightPart {tag : BitVec 8} (htag : tag.getLsbD 0 = s.isFree) (size : Nat) :
    Segment.shape (s.rightPart size tag) = s.shape.rightPart size s.isFree := by
  rw [Segment.shape, Segment.isFree, show (s.rightPart size tag).tag = tag from rfl, htag]
  rfl

/-- `allocate` on memory and on lists. -/
theorem allocate_refines (hp : h.Placed) (hc : HeapChain h m segs) (hn : n ≤ h.heapSize) :
    (allocate n (segs.map Segment.shape) = none → h.allocate m n = (0, m)) ∧
    ∀ p sh, allocate n (segs.map Segment.shape) = some (p, sh) →
      ∃ seg segs', p = seg + sizeofHeader ∧ seg ≠ 0 ∧ Carves n segs seg segs' ∧
        segs'.map Segment.shape = sh ∧ (h.allocate m n).1 = p ∧
        HeapChain h (h.allocate m n).2 segs' := by
  have hfind := findFreeSegment_eq hp hc (n + 2 * sizeofHeader)
  rw [allocate]
  cases hloc : locate (fun s => s.tag && decide (n + 2 * sizeofHeader ≤ s.size))
      (segs.map Segment.shape) with
  | none =>
    refine ⟨fun _ => allocate_of_none hp hn ?_, by simp⟩
    -- no segment of the list is free and large enough, so the search finds none
    have hnone : segs.find? (fun s => s.isFree && decide (n + 2 * sizeofHeader ≤ s.size)) = none :=
      List.find?_eq_none.mpr fun v hv => Bool.eq_false_iff.mp (locate_none hloc v hv)
    rw [hfind, hnone]
    rfl
  | some r =>
    obtain ⟨l₁, t, l₂⟩ := r
    obtain ⟨k₁, u, k₂, rfl, rfl, rfl, rfl, hu, hk⟩ := locate_some hloc
    replace hu : (u.isFree && decide (n + 2 * sizeofHeader ≤ u.size)) = true := hu
    -- the search stops at the same segment as `locate`
    have hfound : h.findFreeSegment m (n + 2 * sizeofHeader) = u.start := by
      have hnone : k₁.find? (fun s => s.isFree && decide (n + 2 * sizeofHeader ≤ s.size)) = none :=
        List.find?_eq_none.mpr fun v hv => Bool.eq_false_iff.mp (hk v hv)
      rw [hfind, List.find?_append, hnone, List.find?_cons, hu]
      rfl
    simp only [Bool.and_eq_true, decide_eq_true_eq] at hu
    -- whether the split is done depends on the sizes only
    have hcut := cut_shape (n := n) hc (by omega)
    rcases allocate_of_found hp hc hn hfound hu.2 with
      ⟨hrefused, hnull⟩ | ⟨hdone, hptr, tag, htag, hc'⟩
    · simp only [hcut.2 hrefused]
      exact ⟨fun _ => hnull, by simp⟩
    · simp only [hcut.1 hdone]
      refine ⟨by simp, fun p sh hps => ?_⟩
      simp only [Option.some.injEq] at hps
      cases hps
      have hb := hc.bounds (s := u) hp (by simp)
      refine ⟨u.start, _, rfl, by omega, .mk k₁ u k₂ tag hu.1 (htag.trans hu.1) hu.2, ?_, hptr, hc'⟩
      rw [List.map_append, List.map_cons, List.map_cons, Segment.shape_mark, shape_rightPart htag]
      rfl

/-- `free` on memory and on lists. -/
theorem free_refines (hp : h.Placed) (hc : HeapChain h m segs) {sh : List Shape}
    (hfree : free seg (segs.map Segment.shape) = some sh) :
    ∃ segs', Frees segs seg segs' ∧ segs'.map Segment.shape = sh ∧
      HeapChain h (DynamicMemoryAllocator.free m (seg + sizeofHeader)) segs' := by
  rw [free] at hfree
  cases hloc : locate (fun s => s.start == seg) (segs.map Segment.shape) with
  | none => simp [hloc] at hfree
  | some r =>
    obtain ⟨l₁, t, l₂⟩ := r
    obtain ⟨k₁, u, k₂, rfl, rfl, rfl, rfl, hu, -⟩ := locate_some hloc
    obtain rfl : u.start = seg := beq_iff_eq.mp hu
    simp only [hloc, ← map_shape_freeNext, ← List.map_append] at hfree
    split at hfree
    · rename_i hkeep
      -- the list heap keeps the segment apart: its link back does not lead to a free neighbour
      obtain rfl := Option.some.inj hfree
      refine ⟨_, .keep k₁ u k₂, rfl, free_keeps hp hc (hkeep.imp_right fun hany => ?_)⟩
      obtain ⟨v, hv, hvu⟩ := List.any_eq_true.mp (List.any_map ▸ hany)
      simp only [Function.comp, Bool.and_eq_true, beq_iff_eq, Bool.not_eq_true'] at hvu
      exact ⟨v, hv, hvu⟩
    · rcases List.eq_nil_or_concat k₁ with rfl | ⟨k₀, q, rfl⟩
      · simp at hfree
      · simp only [List.concat_eq_append] at *
        rw [List.map_append, List.map_cons, List.map_nil, List.getLast?_concat,
          List.dropLast_concat] at hfree
        simp only [← map_shape_joinFirst, ← List.map_append] at hfree
        split at hfree
        · rename_i hq
          -- its link back names the free segment before it
          obtain rfl := Option.some.inj hfree
          refine ⟨_, ?_, rfl, free_joins hp hc hq.1.symm hq.2⟩
          rw [List.append_assoc]
          exact .join k₀ q u k₂ hq.2
        · simp at hfree

/-! ## Runs -/

/-- The heap in memory has the segments and the blocks of the list heap. -/
def Refines (h : DynamicMemoryAllocator) (s : HeapState) (l : ListHeap) : Prop :=
  ∃ segs, HeapState.Inv h s segs ∧ segs.map Segment.shape = l.segs ∧ s.live = l.live

variable {s : HeapState} {l l' : ListHeap} {p : Nat}

open HeapState (without)

theorem Refines.allocate (hp : h.Placed) (hr : Refines h s l) (hn : n ≤ h.heapSize)
    (hstep : l.step h (.allocate n) = some l') : Refines h (s.perform h (.allocate n)) l' := by
  obtain ⟨segs, hI, hsegs, hlive⟩ := hr
  obtain ⟨hnone, hsome⟩ := allocate_refines hp hI.chain hn
  simp only [step, if_pos hn, ← hsegs] at hstep
  cases halloc : ListHeap.allocate n (segs.map Segment.shape) with
  | none =>
    simp only [halloc] at hstep
    obtain rfl := Option.some.inj hstep
    rw [HeapState.perform, hnone halloc, if_pos rfl]
    exact ⟨segs, hI, hsegs, hlive⟩
  | some r =>
    simp only [halloc] at hstep
    obtain rfl := Option.some.inj hstep
    obtain ⟨seg, segs', hptr, hpos, hcv, hshape, hret, hc⟩ := hsome r.1 r.2 halloc
    rw [HeapState.perform, hret, hptr, if_neg (by omega)]
    exact ⟨segs', hI.of_carves hcv hc, hshape, by rw [hlive]⟩

theorem Refines.free (hp : h.Placed) (hr : Refines h s l) (hlive : s.holds p = true)
    (hstep : l.step h (.free p) = some l') : Refines h (s.perform h (.free p)) l' := by
  obtain ⟨segs, hI, hsegs, heq⟩ := hr
  obtain ⟨-, u, -, -, rfl, -⟩ := hI.exists_segment hlive
  have hheld : (l.live.any fun b => b.1 == u.start + sizeofHeader) = true := heq ▸ hlive
  simp only [step, hheld, if_true, Nat.add_sub_cancel, Option.map_eq_some_iff, ← hsegs] at hstep
  obtain ⟨sh, hfree, rfl⟩ := hstep
  obtain ⟨segs', hfr, hshape, hc⟩ := free_refines hp hI.chain hfree
  exact ⟨segs', hI.of_frees hfr hc, hshape, by rw [← heq]; rfl⟩

theorem Refines.reallocate (hp : h.Placed) (hr : Refines h s l) (hlive : s.holds p = true)
    (hn : n ≤ h.heapSize) (hstep : l.step h (.reallocate p n) = some l') :
    Refines h (s.perform h (.reallocate p n)) l' := by
  obtain ⟨segs, hI, hsegs, heq⟩ := hr
  have hheld : (l.live.any fun b => b.1 == p) = true := heq ▸ hlive
  simp only [step, if_pos (And.intro hheld hn), ← hsegs] at hstep
  cases hloc : locate (fun u => u.start + sizeofHeader == p) (segs.map Segment.shape) with
  | none => simp [hloc] at hstep
  | some r =>
    obtain ⟨l₁, t, l₂⟩ := r
    obtain ⟨k₁, u, k₂, rfl, rfl, rfl, rfl, hu, -⟩ := locate_some hloc
    obtain rfl : u.start + sizeofHeader = p := beq_iff_eq.mp hu
    have hmem : u ∈ k₁ ++ u :: k₂ := by simp
    have hub := hI.chain.bounds hp hmem
    -- the pointer is live, so its segment is used
    have hfree : u.isFree = false := by
      obtain ⟨j₁, v, j₂, hsplit, hstart, hv⟩ := hI.exists_segment hlive
      have huv : u = v := hI.chain.covers.eq_of_start_eq (by decide) hmem (by simp [hsplit])
        (by omega)
      rw [huv, hv]
    have hused : Used (k₁ ++ u :: k₂) (u.start, u.size) := ⟨u, hmem, hfree, rfl⟩
    simp only [hloc] at hstep
    by_cases hroom : n + sizeofHeader ≤ u.size
    · -- in place
      rw [if_pos (show n + sizeofHeader ≤ u.shape.size from hroom)] at hstep
      obtain rfl := Option.some.inj hstep
      obtain ⟨m', hret, hcase⟩ := reallocate_shrinks hp hI.chain hroom
      have hcut := cut_shape (n := n) hI.chain hroom
      rw [HeapState.perform, hret, if_neg (by simp only; omega)]
      rcases hcase with ⟨hrefused, rfl⟩ | ⟨hdone, hroom', tag, htag, hc⟩
      · refine ⟨_, hI.resize hused hroom, ?_, by rw [← heq]⟩
        simp [hcut.2 hrefused]
      · have hct : Cuts n _ u.start _ := .mk k₁ u k₂ tag htag hroom'
        refine ⟨_, hI.of_cuts hct hused hc, ?_, by rw [← heq]⟩
        rw [List.map_append, List.map_cons, List.map_cons, shape_rightPart htag]
        simp only [hcut.1 hdone, List.append_assoc, List.cons_append, List.nil_append]
        rfl
    · -- to a new block
      rw [if_neg (show ¬ n + sizeofHeader ≤ u.shape.size from hroom)] at hstep
      obtain ⟨hnull, hmoved⟩ := reallocate_moves hp hI.chain hmem hn (Nat.lt_of_not_le hroom)
      obtain ⟨hnone, hsome⟩ := allocate_refines hp hI.chain hn
      cases halloc : ListHeap.allocate n ((k₁ ++ u :: k₂).map Segment.shape) with
      | none =>
        simp only [halloc] at hstep
        obtain rfl := Option.some.inj hstep
        rw [HeapState.perform, hnull (hnone halloc), if_pos rfl]
        exact ⟨_, hI, hsegs, heq⟩
      | some r =>
        simp only [halloc, Option.map_eq_some_iff] at hstep
        obtain ⟨sh, hsh, rfl⟩ := hstep
        obtain ⟨seg, mid, hptr, hpos, hcv, hshape, hret, hc⟩ := hsome r.1 r.2 halloc
        obtain ⟨t, ht, rfl, -, htsize⟩ := hcv.exists_mem
        obtain ⟨hc, -, hret⟩ := hmoved mid (hcv.mem_of_used hmem hfree) t ht htsize
          (hret.trans hptr) hc
        rw [← hshape] at hsh
        obtain ⟨segs', hfr, hshape', hc'⟩ := free_refines hp hc hsh
        rw [HeapState.perform, hret, if_neg (by simp only; omega)]
        dsimp only
        have hne := hcv.ne_of_used hI.chain.covers hused
        refine ⟨segs', ?_, hshape', by rw [hptr, heq]⟩
        -- the new block is not the old one, so `free` takes the old one off the list
        rw [← HeapState.without_cons_of_ne (by simp only at hne ⊢; omega)]
        exact (hI.of_carves hcv hc).of_frees hfr hc'

/-- What the list heap does, the heap in memory does. -/
theorem Refines.step (hp : h.Placed) (hr : Refines h s l) {c : HeapCall}
    (hstep : l.step h c = some l') : ∃ s', s.step h c = some s' ∧ Refines h s' l' := by
  have hallowed : s.allowed h c = true := by
    obtain ⟨-, -, -, hlive⟩ := hr
    cases c <;> simp only [ListHeap.step] at hstep <;> split at hstep <;>
      simp_all [HeapState.allowed, HeapState.holds]
  refine ⟨s.perform h c, if_pos hallowed, ?_⟩
  cases c with
  | allocate n => exact hr.allocate hp (by simpa [HeapState.allowed] using hallowed) hstep
  | free p => exact hr.free hp hallowed hstep
  | reallocate p n =>
    simp only [HeapState.allowed, Bool.and_eq_true, decide_eq_true_eq] at hallowed
    exact hr.reallocate hp hallowed.1 hallowed.2 hstep
  | write x byte =>
    obtain ⟨segs, hI, hsegs, hlive⟩ := hr
    simp only [ListHeap.step] at hstep
    split at hstep
    · obtain rfl := Option.some.inj hstep
      obtain ⟨b, hb, hx⟩ := List.any_eq_true.mp hallowed
      simp only [Bool.and_eq_true, decide_eq_true_eq] at hx
      exact ⟨segs, hI.write byte ⟨b, hb, hx⟩, hsegs, hlive⟩
    · simp at hstep

/-- Runs of the list heap are runs of the heap in memory. -/
theorem run_refines (hp : h.Placed) (hr : Refines h s l) (calls : List HeapCall)
    (hrun : run (step h) l calls = some l') :
    ∃ s', run (HeapState.step h) s calls = some s' ∧ Refines h s' l' := by
  induction calls generalizing s l with
  | nil =>
    obtain rfl := Option.some.inj hrun
    exact ⟨s, rfl, hr⟩
  | cons c calls ih =>
    obtain ⟨l₁, hl₁, hrest⟩ := Option.bind_eq_some_iff.mp hrun
    obtain ⟨s₁, hs₁, hr₁⟩ := hr.step hp hl₁
    obtain ⟨s', hs', hr'⟩ := ih hr₁ hrest
    exact ⟨s', by rw [run_cons, hs₁]; exact hs', hr'⟩

/-- What the list heap tells of the calls of a run holds of those of the heap in memory. -/
theorem along_refines (hp : h.Placed) {C : HeapState → HeapCall → Prop}
    {D : ListHeap → HeapCall → Prop}
    (hC : ∀ s l c, Refines h s l → s.allowed h c = true → D l c → C s c) (hr : Refines h s l)
    (calls : List HeapCall) (hrun : (run (step h) l calls).isSome)
    (hD : Along (step h) D l calls) : Along (HeapState.step h) C s calls :=
  along_of_refines (HeapState.step h) (step h) (Refines h) C D (fun _ _ _ _ hr hstep => hr.step hp hstep)
    (fun s l c _ hr hD hstep => hC s l c hr (HeapState.allowed_of_step hstep).1 hD) s l calls hr
    hrun hD

/-- `allocate` finds all segments but the last in use, and `free` finds right links back. -/
def InOrder (l : ListHeap) : HeapCall → Prop
  | .allocate _ => ∀ t ∈ l.segs.dropLast, t.tag = false
  | .free _ => BackLinked 0 l.segs
  | .reallocate _ _ => False
  | .write _ _ => True

instance InOrder.decidable (l : ListHeap) : ∀ c, Decidable (l.InOrder c)
  | .allocate _ => inferInstanceAs (Decidable (∀ t ∈ l.segs.dropLast, t.tag = false))
  | .free _ => inferInstanceAs (Decidable (BackLinked 0 l.segs))
  | .reallocate _ _ => inferInstanceAs (Decidable False)
  | .write _ _ => inferInstanceAs (Decidable True)

theorem Refines.freesSafely (hp : h.Placed) (hr : Refines h s l) {c : HeapCall}
    (hallowed : s.allowed h c = true) (hio : l.InOrder c) : HeapState.FreesSafely h s c := by
  obtain ⟨segs, hI, hsegs, -⟩ := hr
  cases c with
  | free p =>
    obtain ⟨l₁, u, l₂, rfl, rfl, -⟩ := hI.exists_segment hallowed
    exact followsLink_of_backLinked hp hI.chain (backLinked_map_shape.mp (hsegs ▸ hio))
  | reallocate p n => exact hio.elim
  | _ => trivial

/-- The list heap that `init` leaves. -/
def boot (base size : Nat) : ListHeap :=
  { segs := [{ start := base, size := size, prev := 0, tag := true }], live := [] }

theorem refines_boot (kbase : Nat) (frames : PageFrameAllocator) {base size : Nat}
    (hp : Placed { heapSize := size, firstSegment := base }) :
    Refines { heapSize := size, firstSegment := base }
      (HeapState.boot kbase frames base size) (boot base size) :=
  ⟨_, HeapState.inv_boot kbase frames hp, by simp [boot, Segment.shape, Segment.isFree], rfl⟩

end ListHeap

/-- A small heap, for runs on lists. -/
abbrev smallHeap : DynamicMemoryAllocator := { heapSize := 1024, firstSegment := 4096 }

abbrev smallList : ListHeap := ListHeap.boot 4096 1024

end Stellux.Kernel
