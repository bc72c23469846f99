import Mathlib.Data.List.Perm.Basic
import Routing.Graph.Snapshot
import Routing.Proofs.Graph.Edges
import Routing.Proofs.Stage.Pairs
/-!
# Views of the edges of a graph

The edges of a graph are listed three times: those to following stages before all hops, slot by slot in
a snapshot, and below each stage in the text of the snapshot. However the graph was made, the three
agree, and each slot shows what was linked to it: the stage that was first asked to follow it, and then
its hops in the order in which they were added.
-/

namespace Routing

namespace Graph

variable {α : Type} {g : Graph} {x y : SlotId} {k : EdgeKind}

/-! ### Graphs in the making -/

/-- A step in making a graph. -/
inductive Edit where
  | add (handle : Nat) (role : Role) (capabilities : Capabilities) (origin : Option StageOrigin)
  | link (source target : SlotId)
  | addHop (fork hop : SlotId)
  | insertCapabilities (id : SlotId) (capabilities : Capabilities)

namespace Edit

/-- The slots that an edit names. -/
def named : Edit → List SlotId
  | add .. => []
  | link source target => [source, target]
  | addHop fork hop => [fork, hop]
  | insertCapabilities id _ => [id]

/-- The stage that is asked to follow `x`. -/
def next? (x : SlotId) : Edit → Option SlotId
  | link source target => if source = x then some target else none
  | _ => none

/-- The stage to which `x` gets a hop. -/
def hop? (x : SlotId) : Edit → Option SlotId
  | addHop fork hop => if fork = x then some hop else none
  | _ => none

end Edit

/-- The graph after an edit. A stage that another one follows is not linked again. -/
def edit (g : Graph) : Edit → Graph
  | .add handle role capabilities origin => (g.add { handle, role, capabilities, origin }).2
  | .link source target =>
    match g.link source target with
    | .ok linked => linked
    | .error _ => g
  | .addHop fork hop => g.addHop fork hop
  | .insertCapabilities id capabilities => g.insertCapabilities id capabilities

def edited (g : Graph) (edits : List Edit) : Graph :=
  edits.foldl edit g

/-- Each edit names slots that are there when it is made. -/
def Admits (g : Graph) : List Edit → Prop
  | [] => True
  | e :: es => (∀ x ∈ e.named, x < g.size) ∧ (g.edit e).Admits es

instance decidableAdmits (g : Graph) : ∀ edits : List Edit, Decidable (g.Admits edits)
  | [] => .isTrue trivial
  | e :: es =>
    have := decidableAdmits (g.edit e) es
    inferInstanceAs (Decidable ((∀ x ∈ e.named, x < g.size) ∧ (g.edit e).Admits es))

/-- All edges lead to slots that are there. -/
def Closed (g : Graph) : Prop :=
  ∀ {x k y}, g.HasEdge x k y → y < g.size

section Edit

variable {e : Edit} {edits : List Edit}

theorem edit_link (u v : SlotId) :
    g.edit (.link u v) = if g.next? u = none then g.wire u .next v else g := by
  cases h : g.next? u <;> simp [edit, link, h, wire]

theorem next?_edit (he : ∀ x ∈ e.named, x < g.size) (x : SlotId) :
    (g.edit e).next? x = (g.next? x).or (e.next? x) := by
  cases e with
  | add => exact (next?_add rfl x).trans (Option.or_none ..).symm
  | link u v =>
    obtain ⟨hu, -⟩ : u < g.size ∧ v < g.size := by simpa [Edit.named] using he
    rw [edit_link, Edit.next?]
    by_cases hx : u = x
    · subst hx
      cases h : g.next? u with
      | none => simp [next?_wire_next hu]
      | some w => simp [h]
    · rw [if_neg hx, Option.or_none]
      split
      · exact next?_wire_ne (Ne.symm hx)
      · rfl
  | addHop u v => exact (next?_wire_hop (u := u) (v := v) x).trans (Option.or_none ..).symm
  | insertCapabilities u caps =>
    exact (next?_insertCapabilities caps x).trans (Option.or_none ..).symm

theorem hops_edit (he : ∀ x ∈ e.named, x < g.size) (x : SlotId) :
    (g.edit e).hops x = g.hops x ++ (e.hop? x).toList := by
  cases e with
  | add => exact (hops_add rfl x).trans (List.append_nil _).symm
  | link u v =>
    have hnone : (Edit.link u v).hop? x = none := rfl
    rw [edit_link, hnone, Option.toList_none, List.append_nil]
    split
    · exact hops_wire_next x
    · rfl
  | addHop u v =>
    obtain ⟨hu, -⟩ : u < g.size ∧ v < g.size := by simpa [Edit.named] using he
    refine (hops_wire_hop (v := v) hu x).trans ?_
    by_cases hx : u = x
    · simp [Edit.hop?, hx]
    · simp [Edit.hop?, hx, Ne.symm hx]
  | insertCapabilities u caps =>
    exact (hops_insertCapabilities caps x).trans (List.append_nil _).symm

theorem Closed.edit (hg : g.Closed) (he : ∀ x ∈ e.named, x < g.size) : (g.edit e).Closed := by
  intro x k y hxy
  cases e with
  | add =>
    have hy : y < g.size := hg ((hasEdge_add rfl rfl).1 hxy)
    exact Nat.lt_of_lt_of_eq (Nat.lt_succ_of_lt hy) (size_add _).symm
  | link u v =>
    obtain ⟨hu, hv⟩ : u < g.size ∧ v < g.size := by simpa [Edit.named] using he
    rw [edit_link] at hxy ⊢
    split at hxy
    · next hn =>
      rw [if_pos hn, size_wire]
      rcases (hasEdge_wire hu fun _ => hn).1 hxy with hxy | ⟨-, -, rfl⟩
      · exact hg hxy
      · exact hv
    · next hn =>
      rw [if_neg hn]
      exact hg hxy
  | addHop u v =>
    obtain ⟨hu, hv⟩ : u < g.size ∧ v < g.size := by simpa [Edit.named] using he
    show y < (g.wire u .hop v).size
    rw [size_wire]
    rcases (hasEdge_wire (k := .hop) hu (by simp)).1 hxy with hxy | ⟨-, -, rfl⟩
    · exact hg hxy
    · exact hv
  | insertCapabilities u caps =>
    show y < (g.insertCapabilities u caps).size
    rw [size_insertCapabilities]
    exact hg ((hasEdge_insertCapabilities caps).1 hxy)

-- by induction on the edits, for all graphs that they start from

/-- The stage that follows is the one that was first asked to. -/
theorem next?_edited (h : g.Admits edits) (x : SlotId) :
    (g.edited edits).next? x = (g.next? x).or (edits.findSome? (·.next? x)) := by
  induction edits generalizing g with
  | nil => exact (Option.or_none ..).symm
  | cons e es ih =>
    obtain ⟨he, hes⟩ := h
    rw [edited, List.foldl_cons, ← edited, ih hes, next?_edit he, List.findSome?_cons]
    cases g.next? x <;> cases e.next? x <;> rfl

/-- The hops are in the order in which they were added. -/
theorem hops_edited (h : g.Admits edits) (x : SlotId) :
    (g.edited edits).hops x = g.hops x ++ edits.filterMap (·.hop? x) := by
  induction edits generalizing g with
  | nil => exact (List.append_nil _).symm
  | cons e es ih =>
    obtain ⟨he, hes⟩ := h
    rw [edited, List.foldl_cons, ← edited, ih hes, hops_edit he, List.append_assoc]
    cases hx : e.hop? x <;> simp [hx]

theorem Closed.edited (hg : g.Closed) (h : g.Admits edits) : (g.edited edits).Closed := by
  induction edits generalizing g with
  | nil => exact hg
  | cons e es ih => exact ih (hg.edit h.1) h.2

theorem closed_empty : Closed {} := fun h =>
  absurd h.source_lt (Nat.not_lt_zero _)

end Edit

/-! ### Edges slot by slot -/

/-- The edges that leave a slot: to the stage that follows, then the hops. -/
def leaving (g : Graph) (x : SlotId) : List Edge :=
  (g.next? x).toList.map (⟨x, ·, .next⟩) ++ (g.hops x).map (⟨x, ·, .hop⟩)

theorem leaving_eq_nil (h : g.size ≤ x) : g.leaving x = [] := by
  simp [leaving, next?, hops, slot?_eq_none.2 h]

theorem of_mem_leaving {e : Edge} (h : e ∈ g.leaving x) :
    e.source = x ∧ g.HasEdge x e.kind e.target := by
  simp only [leaving, List.mem_append, List.mem_map, Option.mem_toList] at h
  rcases h with ⟨y, hy, rfl⟩ | ⟨y, hy, rfl⟩
  · exact ⟨rfl, hy⟩
  · exact ⟨rfl, hy⟩

/-- What is listed for the slots one by one may be read off the graph. -/
theorem flatMap_indexed {f : SlotId × Slot → List α} {f' : SlotId → List α}
    (h : ∀ x s, g.slot? x = some s → f (x, s) = f' x) :
    g.indexed.flatMap f = (List.range g.size).flatMap f' := by
  rw [← map_fst_indexed, List.flatMap_map]
  exact List.flatMap_congr fun p hp => h p.1 p.2 (mem_indexed.1 hp)

theorem edges_eq (g : Graph) : g.edges =
    ((List.range g.size).flatMap fun x => (g.next? x).toList.map fun y => (x, y)) ++
      (List.range g.size).flatMap fun x => (g.hops x).map fun y => (x, y) := by
  unfold edges
  rw [List.filterMap_eq_flatMap_toList]
  congr 1
  · refine flatMap_indexed fun x s hs => ?_
    cases hn : s.next <;> simp [next?, hs, hn]
  · refine flatMap_indexed fun x s hs => ?_
    rw [hops, hs]
    rfl

theorem filter_leaving (g : Graph) (x y : SlotId) :
    (g.leaving y).filter (·.source = x) = if y = x then g.leaving x else [] := by
  split
  · next h =>
    subst h
    exact List.filter_eq_self.2 fun e he => decide_eq_true (of_mem_leaving he).1
  · next h =>
    refine List.filter_eq_nil_iff.2 fun e he => ?_
    rw [(of_mem_leaving he).1, decide_eq_true_eq]
    exact h

/-- Of the edges of several slots, those that leave `x` are the edges of `x`. -/
theorem filter_flatMap_leaving (g : Graph) (x n : Nat) :
    ((List.range n).flatMap g.leaving).filter (·.source = x) = if x < n then g.leaving x else [] := by
  induction n with
  | zero => rfl
  | succ n ih =>
    rw [List.range_succ, List.flatMap_append, List.filter_append, ih, List.flatMap_singleton,
      filter_leaving]
    rcases Nat.lt_trichotomy x n with hlt | rfl | hlt
    · rw [if_pos hlt, if_neg (Nat.ne_of_gt hlt), if_pos (Nat.lt_succ_of_lt hlt), List.append_nil]
    · rw [if_neg (Nat.lt_irrefl x), if_pos rfl, if_pos (Nat.lt_succ_self x), List.nil_append]
    · rw [if_neg (Nat.lt_asymm hlt), if_neg (Nat.ne_of_lt hlt),
        if_neg (Nat.not_lt.2 (Nat.succ_le_of_lt hlt)), List.append_nil]

end Graph

namespace Snapshot

open Routing.Graph

variable {label : Nat → String} {g : Graph} {v : Snapshot}

theorem edges_capture (label : Nat → String) (g : Graph) :
    (capture label g).edges = (List.range g.size).flatMap g.leaving := by
  refine flatMap_indexed fun x s hs => ?_
  rw [leaving, next?, hops, hs]
  rfl

theorem map_id_stages (label : Nat → String) (g : Graph) :
    (capture label g).stages.map (·.id) = List.range g.size := by
  rw [← map_fst_indexed, capture, List.map_map]
  rfl

theorem outgoing_capture (label : Nat → String) (g : Graph) (x : SlotId) :
    (capture label g).outgoing x = g.leaving x := by
  rw [outgoing, edges_capture, filter_flatMap_leaving]
  split
  · rfl
  · next h => exact (leaving_eq_nil (Nat.le_of_not_lt h)).symm

/-- The edges slot by slot are the edges kind by kind in another order. -/
theorem edges_perm (label : Nat → String) (g : Graph) :
    ((capture label g).edges.map fun e => (e.source, e.target)).Perm g.edges := by
  rw [edges_capture, edges_eq, List.map_flatMap]
  refine List.Perm.trans (.of_eq (List.flatMap_congr fun x _ => ?_))
    (List.flatMap_append_perm _ _ _).symm
  simp only [leaving, List.map_append, List.map_map, Function.comp_def]

/-- The edges that leave the stages one by one are all edges, each as often as there is one. -/
theorem flatMap_outgoing (label : Nat → String) (g : Graph) :
    (capture label g).stages.flatMap (fun s => (capture label g).outgoing s.id) =
      (capture label g).edges := by
  rw [edges_capture, ← map_id_stages label g, List.flatMap_map]
  exact List.flatMap_congr fun s _ => outgoing_capture label g s.id

/-! ### Lines -/

/-- The text goes stage by stage: the line of the stage, and then a line for each edge that leaves it. -/
theorem text_eq (v : Snapshot) : v.text = String.join (v.stages.map fun s => stageLine s ++ "\n" ++
    String.join ((v.outgoing s.id).map fun e => edgeLine e ++ "\n")) := by
  unfold text lines
  induction v.stages with
  | nil => rfl
  | cons s ss ih =>
    rw [List.flatMap_cons, List.map_append, String.join_append, ih, List.map_cons, List.map_cons,
      String.join_cons, String.join_cons, List.map_map]
    rfl

/-- The text has no line feed in it. -/
def OneLine (s : String) : Prop :=
  '\n' ∉ s.toList

instance (s : String) : Decidable (OneLine s) :=
  inferInstanceAs (Decidable ('\n' ∉ s.toList))

section OneLine

variable {s t : String}

theorem OneLine.append (hs : OneLine s) (ht : OneLine t) : OneLine (s ++ t) := by
  rw [OneLine, String.toList_append, List.mem_append]
  exact fun h => h.elim hs ht

theorem oneLine_slotText (x : SlotId) : OneLine (slotText x) := by
  refine OneLine.append (by decide) fun h => ?_
  rw [show (toString x).toList = Nat.toDigits 10 x from Nat.toList_repr] at h
  exact absurd (Nat.isDigit_of_mem_toDigits (by decide) (by decide) h) (by decide)

theorem oneLine_edgeLine (e : Edge) : OneLine (edgeLine e) := by
  rw [edgeLine]
  split
  · exact .append (by decide) (oneLine_slotText _)
  · exact .append (by decide) (oneLine_slotText _)

theorem oneLine_padRight (width : Nat) (hs : OneLine s) : OneLine (padRight width s) := by
  refine hs.append fun h => ?_
  rw [String.toList_ofList] at h
  exact absurd (List.eq_of_mem_replicate h) (by decide)

theorem OneLine.intercalate {ls : List String} (hs : OneLine s) (h : ∀ l ∈ ls, OneLine l) :
    OneLine (s.intercalate ls) := by
  induction ls with
  | nil =>
    rw [String.intercalate_nil]
    decide
  | cons l ls ih =>
    have hl : OneLine l := h l List.mem_cons_self
    cases ls with
    | nil =>
      rw [String.intercalate_singleton]
      exact hl
    | cons l' ls =>
      rw [String.intercalate_cons_cons]
      exact .append (hl.append hs) (ih fun t ht => h t (List.mem_cons_of_mem l ht))

theorem oneLine_names {caps : Capabilities} (h : s ∈ caps.names) : OneLine s := by
  have hword : ∀ (c : Bool) (word : String), OneLine word → s ∈ (if c then [word] else []) →
      OneLine s := by
    intro c word hword h
    cases c with
    | false => cases h
    | true => rwa [List.mem_singleton.1 h]
  simp only [Capabilities.names, List.mem_append] at h
  rcases h with (((h | h) | h) | h) | h
  · exact hword _ _ (by decide) h
  · exact hword _ _ (by decide) h
  · exact hword _ _ (by decide) h
  · exact hword _ _ (by decide) h
  · exact hword _ _ (by decide) h

/-- Nothing that a stage brings into its line has a line feed in it. -/
structure Plain (s : StageView) : Prop where
  label : OneLine s.label
  origin : ∀ o ∈ s.origin, (∀ name ∈ o.name, OneLine name) ∧ OneLine o.location

instance (s : StageView) : Decidable (Plain s) :=
  decidable_of_iff (OneLine s.label ∧ ∀ o ∈ s.origin, (∀ name ∈ o.name, OneLine name) ∧
    OneLine o.location) ⟨fun h => ⟨h.1, h.2⟩, fun h => ⟨h.label, h.origin⟩⟩

theorem Plain.oneLine_originText {s : StageView} (hs : Plain s) : OneLine (originText s.origin) := by
  have hkind : ∀ kind : Kind, OneLine kind.name := fun kind => by cases kind <;> decide
  cases ho : s.origin with
  | none => decide
  | some o =>
    obtain ⟨kind, name, location⟩ := o
    obtain ⟨hname, hlocation⟩ := hs.origin _ ho
    cases name with
    | none =>
      rw [originText]
      exact .append (.append (.append (.append (by decide) (hkind kind)) (by decide)) hlocation)
        (by decide)
    | some name =>
      rw [originText]
      exact .append (.append (.append (.append (.append (.append (by decide) (hkind kind))
        (by decide)) (hname name rfl)) (by decide)) hlocation) (by decide)

theorem oneLine_stageLine {s : StageView} (hs : Plain s) {caps : Capabilities}
    (hcaps : s.capabilities = caps.names) : OneLine (stageLine s) := by
  have hrole : OneLine s.role.name := by cases s.role <;> decide
  have hcaps : OneLine (if s.capabilities.isEmpty then "" else
      " [" ++ ", ".intercalate s.capabilities ++ "]") := by
    rw [hcaps]
    split
    · decide
    · exact .append (.append (by decide) (.intercalate (by decide) fun _ => oneLine_names))
        (by decide)
  have hfront : OneLine (slotText s.id ++ " " ++ padRight 11 s.role.name ++ " ") :=
    .append (.append (.append (oneLine_slotText _) (by decide)) (oneLine_padRight 11 hrole))
      (by decide)
  exact .append (.append (.append hfront hs.label) hcaps) hs.oneLine_originText

/-- Lines that are put one below the other can be read again. -/
theorem pieces_lines {ls : List String} (h : ∀ l ∈ ls, OneLine l) :
    Text.pieces (· == '\n') (String.join (ls.map (· ++ "\n"))).toList =
      ls.map String.toList ++ [[]] := by
  induction ls with
  | nil => rfl
  | cons l ls ih =>
    have hl : ∀ c ∈ l.toList, (c == '\n') = false := fun c hc =>
      beq_eq_false_iff_ne.2 fun heq => h l List.mem_cons_self (heq ▸ hc)
    rw [List.map_cons, String.join_cons, String.toList_append, String.toList_append,
      List.append_assoc, show "\n".toList = ['\n'] from rfl, List.singleton_append,
      Text.pieces_append hl rfl, ih fun l' hl' => h l' (List.mem_cons_of_mem l hl')]
    rfl

theorem oneLine_lines (hv : ∀ s ∈ (capture label g).stages, Plain s) :
    ∀ l ∈ (capture label g).lines, OneLine l := by
  intro l hl
  obtain ⟨s, hs, hl⟩ := List.mem_flatMap.1 hl
  rcases List.mem_cons.1 hl with rfl | hl
  · obtain ⟨p, -, rfl⟩ := List.mem_map.1 hs
    exact oneLine_stageLine (hv _ hs) rfl
  · obtain ⟨e, -, rfl⟩ := List.mem_map.1 hl
    exact oneLine_edgeLine e

end OneLine

end Snapshot

namespace Graph

open Snapshot

/-- However a graph is made, the views of its edges agree: a snapshot has the edges of the graph in
another order, shows of each slot what was linked to it, and puts each edge once into its text, on a
line of its own below the stage that it leaves. -/
theorem views_agree (label : Nat → String) (edits : List Edit) (h : Admits {} edits) :
    let g := edited {} edits
    let v := capture label g
    (v.edges.map fun e => (e.source, e.target)).Perm g.edges ∧
      (∀ x, v.outgoing x = (g.next? x).toList.map (⟨x, ·, .next⟩) ++ (g.hops x).map (⟨x, ·, .hop⟩) ∧
        g.next? x = edits.findSome? (·.next? x) ∧ g.hops x = edits.filterMap (·.hop? x)) ∧
      v.stages.map (·.id) = List.range g.size ∧
      v.stages.flatMap (fun s => v.outgoing s.id) = v.edges ∧
      v.text = String.join (v.stages.map fun s => stageLine s ++ "\n" ++
        String.join ((v.outgoing s.id).map fun e => edgeLine e ++ "\n")) ∧
      ((∀ s ∈ v.stages, Plain s) → Text.pieces (· == '\n') v.text.toList =
        (v.stages.flatMap fun s => stageLine s :: (v.outgoing s.id).map edgeLine).map
          String.toList ++ [[]]) ∧
      -- an edge takes one line, and its ends fit where the number of slots does
      ∀ e ∈ v.edges, OneLine (edgeLine e) ∧ e.source < g.size ∧ e.target < g.size := by
  refine ⟨edges_perm label _, fun x => ⟨outgoing_capture label _ x, ?_, ?_⟩, map_id_stages label _,
    flatMap_outgoing label _, text_eq _, fun hv => pieces_lines (oneLine_lines hv), fun e he => ?_⟩
  · exact (next?_edited h x).trans (Option.none_or ..)
  · exact (hops_edited h x).trans (List.nil_append _)
  · rw [edges_capture] at he
    obtain ⟨x, -, he⟩ := List.mem_flatMap.1 he
    obtain ⟨hsource, hedge⟩ := of_mem_leaving he
    exact ⟨oneLine_edgeLine e, hsource ▸ hedge.source_lt, closed_empty.edited h hedge⟩

/-- Two slots share a target, a hop is added twice, a slot feeds itself, and two feed each other. The
second stage that is asked to follow slot 1 does not. -/
def sampleEdits : List Edit :=
  [.add 0 .multiplexer .none none, .add 1 .declared .none (some ⟨.filter, some "f", "#unknown"⟩),
    .addHop 0 1, .link 1 0, .add 2 .join .none none, .addHop 0 2, .link 1 2, .addHop 0 1,
    .insertCapabilities 1 { branchFinal := true }, .link 2 2, .link 0 2]

def sampleLabels (handle : Nat) : String :=
  if handle = 0 then "multiplexer" else "pass"

theorem views_agree_sample :
    let g := edited {} sampleEdits
    let v := capture sampleLabels g
    Admits {} sampleEdits ∧ (∀ s ∈ v.stages, Plain s) ∧
      [(0, 2), (0, 1), (0, 2), (0, 1), (1, 0), (2, 2)].Perm g.edges ∧
      g.edges = [(0, 2), (1, 0), (2, 2), (0, 1), (0, 2), (0, 1)] ∧
      v.outgoing 0 = [⟨0, 2, .next⟩, ⟨0, 1, .hop⟩, ⟨0, 2, .hop⟩, ⟨0, 1, .hop⟩] ∧
      v.outgoing 1 = [⟨1, 0, .next⟩] ∧
      v.stages.flatMap (fun s => v.outgoing s.id) = v.edges ∧
      Text.pieces (· == '\n') v.text.toList =
        ["#0 multiplexer multiplexer", "   -> #2", "   => #1", "   => #2", "   => #1",
          "#1 declared    pass [BRANCH_FINAL] (filter 'f' at #unknown)", "   -> #0",
          "#2 join        pass", "   -> #2", ""].map String.toList := by
  have h : Admits {} sampleEdits := by decide +kernel
  have hplain : ∀ s ∈ (capture sampleLabels (edited {} sampleEdits)).stages, Plain s := by
    decide +kernel
  obtain ⟨hperm, hout, -, hflat, -, hlines, -⟩ := views_agree sampleLabels sampleEdits h
  have hmap : (capture sampleLabels (edited {} sampleEdits)).edges.map
      (fun e => (e.source, e.target)) = [(0, 2), (0, 1), (0, 2), (0, 1), (1, 0), (2, 2)] := by
    decide +kernel
  refine ⟨h, hplain, hmap ▸ hperm, by decide +kernel, (hout 0).1.trans (by decide +kernel),
    (hout 1).1.trans (by decide +kernel), hflat, (hlines hplain).trans (by decide +kernel)⟩

end Graph

end Routing
