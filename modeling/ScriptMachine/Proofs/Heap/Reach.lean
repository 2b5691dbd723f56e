import ScriptMachine.Heap.Allocate

set_option autoImplicit false

/- Reachability, the invariant of the marker, and what a collection keeps: exactly the reachable
objects, as they were, and their intern entries. -/
namespace ScriptMachine

namespace Heap

/-- The objects that can be reached from some roots. The last one of a chain of references need
not be there. -/
inductive Reaches (objects : Std.TreeMap ObjectId Object) (roots : List ObjectId) :
    ObjectId → Prop where
  | root {id : ObjectId} : id ∈ roots → Reaches objects roots id
  | next {id other : ObjectId} {object : Object} : Reaches objects roots id →
      objects[id]? = some object → other ∈ object.references → Reaches objects roots other

theorem Reaches.mono {objects : Std.TreeMap ObjectId Object} {few many : List ObjectId}
    {id : ObjectId} (more : ∀ id ∈ few, Reaches objects many id)
    (reached : Reaches objects few id) : Reaches objects many id := by
  induction reached with
  | root member => exact more _ member
  | next _ present member ih => exact .next ih present member

/-- What is reached is reached from one of the roots. -/
theorem Reaches.single {objects : Std.TreeMap ObjectId Object} {roots : List ObjectId}
    {id : ObjectId} (reached : Reaches objects roots id) :
    ∃ root ∈ roots, Reaches objects [root] id := by
  induction reached with
  | root member => exact ⟨_, member, .root (List.mem_singleton.mpr rfl)⟩
  | next _ present member ih =>
    obtain ⟨root, isRoot, reached⟩ := ih
    exact ⟨root, isRoot, reached.next present member⟩

/-- What is reached stays reached in every table that has the reached objects. -/
theorem Reaches.transfer {objects other : Std.TreeMap ObjectId Object} {roots more : List ObjectId}
    {id : ObjectId} (same : ∀ id, Reaches objects roots id → other[id]? = objects[id]?)
    (subset : ∀ id ∈ roots, id ∈ more) (reached : Reaches objects roots id) :
    Reaches other more id := by
  induction reached with
  | root member => exact .root (subset _ member)
  | next reached present member ih => exact .next ih ((same _ reached).trans present) member

/-- Nothing else is reached in a table that has the reached objects. -/
theorem Reaches.transfer_back {objects other : Std.TreeMap ObjectId Object} {roots : List ObjectId}
    {id : ObjectId} (same : ∀ id, Reaches objects roots id → other[id]? = objects[id]?)
    (reached : Reaches other roots id) : Reaches objects roots id := by
  induction reached with
  | root member => exact .root member
  | next _ present member ih => exact .next ih ((same _ ih).symm.trans present) member

/-- An object that refers to nothing leads nowhere. -/
theorem Reaches.of_bare {objects : Std.TreeMap ObjectId Object} {id other : ObjectId}
    {object : Object} (present : objects[id]? = some object) (bare : object.references = [])
    (reached : Reaches objects [id] other) : other = id := by
  induction reached with
  | root member => exact List.mem_singleton.mp member
  | next _ found member ih =>
    subst ih
    rw [present] at found
    cases found
    rw [bare] at member
    cases member

/-- A set that contains the roots and is closed under references contains all that is reached. -/
theorem Reaches.closed {objects : Std.TreeMap ObjectId Object} {roots : List ObjectId}
    {id : ObjectId} {live : ObjectId → Prop} (rooted : ∀ id ∈ roots, live id)
    (closed : ∀ id object, live id → objects[id]? = some object →
      ∀ other ∈ object.references, live other)
    (reached : Reaches objects roots id) : live id := by
  induction reached with
  | root member => exact rooted _ member
  | next _ present member ih => exact closed _ _ ih present _ member

section Marking

variable {heap : Heap} {marker : Marker} {roots ids : List ObjectId} {id : ObjectId}

theorem mem_marked_mark (heap : Heap) (marker : Marker) (first : ObjectId) :
    id ∈ (heap.mark marker first).marked ↔
      id ∈ marker.marked ∨ id = first ∧ id ∈ heap.objects := by
  unfold mark
  split
  · next new =>
    simp only [Bool.and_eq_true, Bool.not_eq_true', Std.TreeMap.contains_iff_mem] at new
    rw [Std.TreeSet.mem_insert, Std.LawfulEqCmp.compare_eq_iff_eq]
    grind
  · next old =>
    simp only [Bool.and_eq_true, Bool.not_eq_true', Std.TreeMap.contains_iff_mem,
      ← Bool.not_eq_true, Std.TreeSet.contains_iff_mem] at old
    grind

theorem mem_gray_mark (heap : Heap) (marker : Marker) (first : ObjectId) :
    id ∈ (heap.mark marker first).gray ↔
      id ∈ marker.gray ∨ id = first ∧ id ∈ heap.objects ∧ id ∉ marker.marked := by
  unfold mark
  split
  · next new =>
    simp only [Bool.and_eq_true, Bool.not_eq_true', Std.TreeMap.contains_iff_mem,
      ← Bool.not_eq_true, Std.TreeSet.contains_iff_mem] at new
    rw [List.mem_cons]
    grind
  · next old =>
    simp only [Bool.and_eq_true, Bool.not_eq_true', Std.TreeMap.contains_iff_mem,
      ← Bool.not_eq_true, Std.TreeSet.contains_iff_mem] at old
    grind

theorem mem_marked_markAll (heap : Heap) (marker : Marker) (ids : List ObjectId) :
    id ∈ (heap.markAll marker ids).marked ↔
      id ∈ marker.marked ∨ id ∈ ids ∧ id ∈ heap.objects := by
  induction ids generalizing marker with
  | nil => simp [markAll]
  | cons first rest ih =>
    rw [markAll, List.foldl_cons, ← markAll, ih, mem_marked_mark, List.mem_cons]
    grind

theorem mem_gray_markAll (heap : Heap) (marker : Marker) (ids : List ObjectId) :
    id ∈ (heap.markAll marker ids).gray ↔
      id ∈ marker.gray ∨ id ∈ ids ∧ id ∈ heap.objects ∧ id ∉ marker.marked := by
  induction ids generalizing marker with
  | nil => simp [markAll]
  | cons first rest ih =>
    rw [markAll, List.foldl_cons, ← markAll, ih, mem_gray_mark, mem_marked_mark, List.mem_cons]
    grind

@[simp] theorem mark_collecting (heap : Heap) (marker : Marker) (id : ObjectId) :
    (heap.mark marker id).collecting = marker.collecting := by
  unfold mark
  split <;> rfl

@[simp] theorem markAll_collecting (heap : Heap) (marker : Marker) (ids : List ObjectId) :
    (heap.markAll marker ids).collecting = marker.collecting := by
  induction ids generalizing marker with
  | nil => rfl
  | cons first rest ih => rw [markAll, List.foldl_cons, ← markAll, ih, mark_collecting]

theorem markAll_append (heap : Heap) (marker : Marker) (first second : List ObjectId) :
    heap.markAll marker (first ++ second) = heap.markAll (heap.markAll marker first) second :=
  List.foldl_append

/-- What holds of the marker at every moment of a collection from some roots. Only objects that
are there and reached get marked, and what a marked object refers to is marked as well, unless
that object is still gray. -/
structure Marking (heap : Heap) (roots : List ObjectId) (marker : Marker) : Prop where
  present : ∀ {id}, id ∈ marker.marked → id ∈ heap.objects
  reached : ∀ {id}, id ∈ marker.marked → Reaches heap.objects roots id
  grayMarked : ∀ {id}, id ∈ marker.gray → id ∈ marker.marked
  closed : ∀ {id other}, id ∈ marker.marked → id ∉ marker.gray → other ∈ heap.successors id →
    other ∈ heap.objects → other ∈ marker.marked

theorem Reaches.successor {other : ObjectId} (reached : Reaches heap.objects roots id)
    (member : other ∈ heap.successors id) : Reaches heap.objects roots other := by
  unfold successors at member
  cases found : heap.get? id with
  | none => simp [found] at member
  | some object =>
    rw [found] at member
    exact reached.next found member

/-- Marking what is reached keeps the invariant. -/
theorem Marking.markAll (marking : Marking heap roots marker)
    (reached : ∀ id ∈ ids, Reaches heap.objects roots id) :
    Marking heap roots (heap.markAll marker ids) where
  present := by
    intro id marked
    rcases (mem_marked_markAll heap marker ids).mp marked with old | new
    · exact marking.present old
    · exact new.2
  reached := by
    intro id marked
    rcases (mem_marked_markAll heap marker ids).mp marked with old | new
    · exact marking.reached old
    · exact reached id new.1
  grayMarked := by
    intro id gray
    rw [mem_marked_markAll]
    rcases (mem_gray_markAll heap marker ids).mp gray with old | new
    · exact Or.inl (marking.grayMarked old)
    · exact Or.inr ⟨new.1, new.2.1⟩
  closed := by
    intro id other marked black member present
    rw [mem_gray_markAll] at black
    rw [mem_marked_markAll] at marked ⊢
    have old : id ∈ marker.marked := by grind
    exact Or.inl (marking.closed old (fun gray => black (Or.inl gray)) member present)

/-- Looking through a gray object keeps the invariant: its references are marked by then. -/
theorem Marking.blacken {rest : List ObjectId} (marking : Marking heap roots marker)
    (gray : marker.gray = id :: rest) :
    Marking heap roots (heap.markAll { marker with gray := rest } (heap.successors id)) := by
  have marked : id ∈ marker.marked := marking.grayMarked (by rw [gray]; exact List.mem_cons_self)
  refine ⟨?_, ?_, ?_, ?_⟩
  · intro other found
    rcases (mem_marked_markAll heap _ _).mp found with old | new
    · exact marking.present old
    · exact new.2
  · intro other found
    rcases (mem_marked_markAll heap _ _).mp found with old | new
    · exact marking.reached old
    · exact (marking.reached marked).successor new.1
  · intro other found
    rw [mem_marked_markAll]
    rcases (mem_gray_markAll heap _ _).mp found with old | new
    · exact Or.inl (marking.grayMarked (by rw [gray]; exact List.mem_cons_of_mem _ old))
    · exact Or.inr ⟨new.1, new.2.1⟩
  · intro other last found black member present
    rw [mem_gray_markAll] at black
    rw [mem_marked_markAll] at found ⊢
    by_cases same : other = id
    · exact Or.inr ⟨same ▸ member, present⟩
    · have old : other ∈ marker.marked := by grind
      refine Or.inl (marking.closed old ?_ member present)
      rw [gray, List.mem_cons]
      grind

theorem trace_of_gray {rest : List ObjectId} (gray : marker.gray = id :: rest) :
    heap.trace marker
      = heap.trace (heap.markAll { marker with gray := rest } (heap.successors id)) := by
  rw [trace]
  split
  · next empty => rw [gray] at empty; cases empty
  · next first others same =>
    rw [gray] at same
    cases same
    rfl

theorem trace_of_black (gray : marker.gray = []) : heap.trace marker = marker := by
  rw [trace]
  split
  · rfl
  · next same => rw [gray] at same; cases same

/-- The marker ends with nothing gray, the invariant intact and all its marks still set. -/
theorem Marking.trace (marking : Marking heap roots marker) :
    Marking heap roots (heap.trace marker) ∧ (heap.trace marker).gray = [] ∧
      ∀ id ∈ marker.marked, id ∈ (heap.trace marker).marked := by
  fun_induction Heap.trace heap marker with
  | case1 marker gray =>
    exact ⟨marking, gray, fun _ marked => marked⟩
  | case2 marker first rest gray ih =>
    obtain ⟨after, black, kept⟩ := ih (marking.blacken gray)
    refine ⟨after, black, fun id marked => kept id ?_⟩
    rw [mem_marked_markAll]
    exact Or.inl marked

end Marking

end Heap

/-- Nothing is marked, nothing is gray and no collection is under way. -/
structure Marker.AtRest (marker : Marker) : Prop where
  idle : marker.collecting = false
  unmarked : ∀ id, id ∉ marker.marked
  black : marker.gray = []

theorem Marker.atRest_new : ({} : Marker).AtRest where
  idle := rfl
  unmarked _ := by simp
  black := rfl

section Marked

variable {heap : Heap} {marker : Marker} {roots : List ObjectId} {id : ObjectId}

/-- The marks that a collection from some roots ends its marking with. -/
def Heap.marksFrom (heap : Heap) (marker : Marker) (roots : List ObjectId) : Marker :=
  heap.trace (heap.markAll { marker with collecting := true } roots)

theorem Heap.marking_marksFrom (heap : Heap) (rest : marker.AtRest) (roots : List ObjectId) :
    Heap.Marking heap roots (heap.marksFrom marker roots) ∧ (heap.marksFrom marker roots).gray = [] ∧
      ∀ id ∈ roots, id ∈ heap.objects → id ∈ (heap.marksFrom marker roots).marked := by
  have begun : Heap.Marking heap roots { marker with collecting := true } :=
    { present := fun marked => absurd marked (rest.unmarked _)
      reached := fun marked => absurd marked (rest.unmarked _)
      grayMarked := fun gray => by rw [rest.black] at gray; cases gray
      closed := fun marked => absurd marked (rest.unmarked _) }
  obtain ⟨marking, black, kept⟩ := (begun.markAll fun id member => .root member).trace
  refine ⟨marking, black, fun id member present => kept id ?_⟩
  rw [Heap.mem_marked_markAll]
  exact Or.inr ⟨member, present⟩

/-- A collection that starts at rest marks exactly the objects that are reached. -/
theorem Heap.mem_marksFrom (rest : marker.AtRest) :
    id ∈ (heap.marksFrom marker roots).marked ↔
      (heap.get? id).isSome ∧ Heap.Reaches heap.objects roots id := by
  have member : id ∈ heap.objects ↔ (heap.get? id).isSome := Std.TreeMap.mem_iff_isSome_getElem?
  rw [← member]
  obtain ⟨marking, black, rooted⟩ := heap.marking_marksFrom rest roots
  refine ⟨fun marked => ⟨marking.present marked, marking.reached marked⟩, ?_⟩
  rintro ⟨present, reached⟩
  have live : id ∈ heap.objects → id ∈ (heap.marksFrom marker roots).marked := by
    refine reached.closed rooted ?_
    intro other object marked found last member present
    have here : other ∈ heap.objects := by
      rw [Std.TreeMap.mem_iff_isSome_getElem?, found]
      rfl
    refine marking.closed (marked here) (by rw [black]; simp) ?_ present
    rw [Heap.successors, Heap.get?, found]
    exact member
  exact live present

end Marked

section Sources

variable {again : Collector → Collector} {sources : List (List RootRequest)}
  {pins : List (Option ObjectId)} {collector : Collector}

/-- The objects that a request of a source has marked. -/
def RootRequest.roots : RootRequest → List ObjectId
  | .object id => [id]
  | .struct contents => contents.references
  | .collect => []

/-- The roots of a collection with some sources and pins. -/
def Collector.roots (sources : List (List RootRequest)) (pins : List (Option ObjectId)) :
    List ObjectId :=
  sources.flatten.flatMap RootRequest.roots ++ pins.filterMap id

/-- While a collection is under way, sources only have objects marked. -/
theorem Collector.foldl_serve (idle : ∀ collector, collector.marker.collecting = true →
      again collector = collector) (requests : List RootRequest)
    (busy : collector.marker.collecting = true) :
    requests.foldl (serve again) collector = { collector with
      marker := collector.heap.markAll collector.marker (requests.flatMap RootRequest.roots) } := by
  induction requests generalizing collector with
  | nil => rfl
  | cons request rest ih =>
    rw [List.foldl_cons, List.flatMap_cons, Heap.markAll_append]
    cases request with
    | object id => exact ih ((Heap.mark_collecting _ _ _).trans busy)
    | struct contents => exact ih ((Heap.markAll_collecting _ _ _).trans busy)
    | collect =>
      rw [serve, idle collector busy]
      exact ih busy

/-- A collection marks from its roots and then sweeps, whatever its sources ask for meanwhile. -/
theorem Collector.pass_eq (idle : ∀ collector, collector.marker.collecting = true →
      again collector = collector) (rest : collector.marker.collecting = false) :
    pass again sources pins collector = sweep { collector with
      marker := collector.heap.marksFrom collector.marker (roots sources pins) } := by
  rw [pass, rest, if_neg Bool.false_ne_true]
  dsimp only
  rw [foldl_serve idle _ rfl]
  simp only [roots, Heap.marksFrom, Heap.markAll_append]

theorem Collector.collect_eq (rest : collector.marker.collecting = false) :
    collect sources pins collector = sweep { collector with
      marker := collector.heap.marksFrom collector.marker (roots sources pins) } :=
  pass_eq (fun _ _ => rfl) rest

end Sources

namespace Heap

section Collection

variable {heap : Heap} {roots : List ObjectId} {id : ObjectId} {text : Text}

/-- A sweep keeps the marked objects, unchanged, and no others. -/
theorem get?_swept {object : Object} {marked : Std.TreeSet ObjectId} :
    (heap.swept marked).get? id = some object ↔ heap.get? id = some object ∧ id ∈ marked := by
  have filtered : (heap.swept marked).get? id
      = (heap.get? id).filter fun _ => marked.contains id := by
    simp only [swept, get?, Std.TreeMap.getElem?_filter']
  rw [filtered, Option.filter_eq_some_iff, Std.TreeSet.contains_iff_mem]

theorem interned_swept {marked : Std.TreeSet ObjectId} :
    (heap.swept marked).interned[text]? = some id ↔
      heap.interned[text]? = some id ∧ id ∈ marked := by
  have filtered : (heap.swept marked).interned[text]?
      = heap.interned[text]?.filter fun id => marked.contains id := by
    simp only [swept, Std.HashMap.getElem?_filter']
  rw [filtered, Option.filter_eq_some_iff, Std.TreeSet.contains_iff_mem]

theorem collect_eq_swept (heap : Heap) (roots : List ObjectId) :
    heap.collect roots = heap.swept (heap.marksFrom {} roots).marked := by
  rw [collect, Collector.collect_eq rfl, Collector.roots]
  simp only [List.flatten_singleton, List.flatMap_map, RootRequest.roots, List.flatMap_singleton',
    List.filterMap_nil, List.append_nil]
  rfl

@[simp] theorem collect_nextId : (heap.collect roots).nextId = heap.nextId := by
  rw [collect_eq_swept]
  rfl

@[simp] theorem collect_config : (heap.collect roots).config = heap.config := by
  rw [collect_eq_swept]
  rfl

/-- A collection keeps the objects that are reached, unchanged, and no others. -/
theorem get?_collect {object : Object} :
    (heap.collect roots).get? id = some object ↔
      heap.get? id = some object ∧ Reaches heap.objects roots id := by
  rw [collect_eq_swept, get?_swept, mem_marksFrom Marker.atRest_new]
  refine and_congr_right fun present => ?_
  simp [present]

theorem get?_collect_of_reaches (reached : Reaches heap.objects roots id) :
    (heap.collect roots).get? id = heap.get? id := by
  cases present : heap.get? id with
  | some object => exact get?_collect.mpr ⟨present, reached⟩
  | none =>
    cases after : (heap.collect roots).get? id with
    | none => rfl
    | some object =>
      rw [(get?_collect.mp after).1] at present
      cases present

theorem interned_collect :
    (heap.collect roots).interned[text]? = some id ↔
      heap.interned[text]? = some id ∧
        (heap.get? id).isSome ∧ Reaches heap.objects roots id := by
  rw [collect_eq_swept, interned_swept, mem_marksFrom Marker.atRest_new]

end Collection

end Heap

end ScriptMachine
