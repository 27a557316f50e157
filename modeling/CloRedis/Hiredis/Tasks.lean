import CloRedis.Hiredis.Reader

/-!
The stack of tasks and the reply that is being built mirror the arrays that are
open. Making an object and moving to the next task is the delivery of a reply.
-/

namespace CloRedis

open Library

mutual

/-- The objects of a reply. -/
def HiredisReply.built : HiredisReply → ReplyNode
  | ⟨type, integer, str, element⟩ => .reply type integer str (HiredisReply.builtAll element)

def HiredisReply.builtAll : List HiredisReply → List ReplyNode
  | [] => []
  | reply :: rest => reply.built :: HiredisReply.builtAll rest

end

theorem HiredisReply.builtAll_eq (items : List HiredisReply) :
    builtAll items = items.map built := by
  induction items with
  | nil => rfl
  | cons reply rest ih => rw [builtAll, ih, List.map_cons]

theorem built_arrayOf (items : List HiredisReply) :
    (arrayOf items).built = .reply .array 0 [] (items.map HiredisReply.built) := by
  rw [arrayOf, HiredisReply.built, HiredisReply.builtAll_eq]

/-- An open array: its elements, a hole, and the elements that are NULL. -/
def Frame.node (f : Frame) (hole : ReplyNode) : ReplyNode :=
  .reply .array 0 [] (f.done.map HiredisReply.built ++
    hole :: List.replicate (f.total - f.done.length - 1) .null)

/-- The open arrays as the root of the reply leads to them. -/
def plug : List Frame → ReplyNode → ReplyNode
  | [], hole => hole
  | f :: fs, hole => plug fs (f.node hole)

/-- The path from the root to the hole. -/
def path : List Frame → List Nat
  | [] => []
  | f :: fs => path fs ++ [f.done.length]

/-- The index of the reply that comes next; the root has none. -/
def place : List Frame → Int
  | [] => -1
  | f :: _ => f.done.length

/-- The tasks under the current one are those of the open arrays. -/
def Below : List ReadTask → List Frame → Prop
  | [], [] => True
  | task :: tasks, f :: fs =>
      task.type = some .array ∧ task.elements = f.total ∧ task.obj = some (path fs) ∧
        task.idx = place fs ∧ f.done.length < f.total ∧ Below tasks fs
  | _, _ => False

variable {frames fs : List Frame} {f : Frame} {reply : HiredisReply} {tasks : List ReadTask}
  {node : ReplyNode}

theorem Below.length (h : Below tasks frames) : tasks.length = frames.length := by
  induction tasks generalizing frames with
  | nil =>
      cases frames with
      | nil => rfl
      | cons f fs => exact absurd h id
  | cons task tasks ih =>
      cases frames with
      | nil => exact absurd h id
      | cons f fs =>
          obtain ⟨_, _, _, _, _, hrest⟩ := h
          rw [List.length_cons, List.length_cons, ih hrest]

/-! ### Objects -/

theorem Frame.node_full (h : f.done.length + 1 = f.total) :
    f.node reply.built = (arrayOf (f.done ++ [reply])).built := by
  have hnone : f.total - f.done.length - 1 = 0 := by omega
  rw [built_arrayOf, Frame.node, hnone, List.map_append]
  rfl

theorem Frame.node_more (hlt : f.done.length < f.total) (h : f.done.length + 1 ≠ f.total) :
    f.node reply.built = Frame.node ⟨f.total, f.done ++ [reply]⟩ .null := by
  have hleft : f.total - f.done.length - 1 =
      f.total - (f.done ++ [reply]).length - 1 + 1 := by
    rw [List.length_append, List.length_singleton]
    omega
  rw [Frame.node, Frame.node, hleft, List.replicate_succ, List.map_append, List.append_assoc]
  rfl

variable (reply) in
/-- A reply in the hole is what its delivery leaves. -/
theorem plug_deliver (h : Below tasks frames) :
    (∀ t, (deliver frames reply).2 = some t → plug frames reply.built = t.built) ∧
      ((deliver frames reply).2 = none →
        plug frames reply.built = plug (deliver frames reply).1 .null) := by
  induction frames generalizing tasks reply with
  | nil =>
      constructor
      · intro t ht
        cases ht
        rfl
      · intro hnone
        cases hnone
  | cons f fs ih =>
      cases tasks with
      | nil => exact absurd h id
      | cons task tasks =>
          obtain ⟨_, _, _, _, hlt, hrest⟩ := h
          rw [deliver, plug]
          split
          · rename_i hlast
            rw [Frame.node_full hlast]
            exact ih _ hrest
          · rename_i hmore
            constructor
            · intro t ht
              cases ht
            · intro _
              rw [Frame.node_more hlt hmore]
              rfl

theorem getElem?_hole (f : Frame) (hole : ReplyNode) :
    (f.done.map HiredisReply.built ++
      hole :: List.replicate (f.total - f.done.length - 1) .null)[f.done.length]? = some hole := by
  rw [List.getElem?_append_right (by rw [List.length_map]), List.length_map, Nat.sub_self]
  rfl

theorem set_hole (f : Frame) (hole new : ReplyNode) :
    (f.done.map HiredisReply.built ++
      hole :: List.replicate (f.total - f.done.length - 1) .null).set f.done.length new =
    f.done.map HiredisReply.built ++
      new :: List.replicate (f.total - f.done.length - 1) .null := by
  rw [List.set_append_right _ _ (by rw [List.length_map]), List.length_map, Nat.sub_self]
  rfl

/-- An element of a node in the hole. -/
theorem setElement_plug (frames : List Frame) (hole : ReplyNode) (q : List Nat) (idx : Int)
    (new : ReplyNode) :
    (plug frames hole).setElement (path frames ++ q) idx new =
      (hole.setElement q idx new).map (plug frames) := by
  induction frames generalizing hole q with
  | nil =>
      rw [path, List.nil_append]
      cases hset : ReplyNode.setElement hole q idx new with
      | error e =>
          rw [plug, hset]
          rfl
      | ok v =>
          rw [plug, hset]
          rfl
  | cons f fs ih =>
      rw [plug, path, List.append_assoc, ih]
      show ((f.node hole).setElement (f.done.length :: q) idx new).map (plug fs) = _
      rw [Frame.node, ReplyNode.setElement, getElem?_hole]
      dsimp only
      cases hset : ReplyNode.setElement hole q idx new with
      | error e => rfl
      | ok v =>
          dsimp only [Except.map]
          rw [set_hole]
          rfl

theorem setElement_hole (f : Frame) (fs : List Frame) (new : ReplyNode) :
    (plug (f :: fs) .null).setElement (path fs) (place (f :: fs)) new =
      .ok (plug (f :: fs) new) := by
  have hset := setElement_plug fs (f.node .null) [] (place (f :: fs)) new
  rw [List.append_nil] at hset
  rw [plug, hset, Frame.node, ReplyNode.setElement, place, if_neg (by decide), if_pos,
    Int.toNat_natCast, set_hole]
  · rfl
  · refine ⟨Int.natCast_nonneg _, ?_⟩
    rw [Int.toNat_natCast, List.length_append, List.length_map, List.length_cons]
    omega

/-! ### Tasks -/

/-- The current task and those under it. -/
def Stacked (rstack : List ReadTask) (p : Parse) : Prop :=
  ∃ top below, rstack = top :: below ∧ top.type = p.kind ∧ top.idx = place p.frames ∧
    Below below p.frames

variable (reply) in
/-- Moving to the next task is what a delivery does to the open arrays. -/
theorem moveToNextTask_deliver {top : ReadTask} (hidx : top.idx = place frames)
    (h : Below tasks frames) :
    ∃ rstack, RedisReader.moveToNextTask (top :: tasks) = .ok rstack ∧
      (∀ t, (deliver frames reply).2 = some t → rstack = []) ∧
      ((deliver frames reply).2 = none → Stacked rstack ⟨(deliver frames reply).1, none⟩) := by
  induction frames generalizing top tasks reply with
  | nil =>
      cases tasks with
      | nil =>
          refine ⟨[], rfl, fun _ _ => rfl, ?_⟩
          intro hnone
          cases hnone
      | cons task tasks => exact absurd h id
  | cons f fs ih =>
      cases tasks with
      | nil => exact absurd h id
      | cons task tasks =>
          obtain ⟨htype, helements, hobj, hplace, hlt, hrest⟩ := h
          rw [place] at hidx
          rw [RedisReader.moveToNextTask, if_neg (not_not.mpr htype), hidx, helements]
          by_cases hlast : f.done.length + 1 = f.total
          · rw [if_pos (by omega), deliver, if_pos hlast]
            exact ih _ hplace hrest
          · rw [if_neg (by omega), if_pos (by omega), deliver, if_neg hlast]
            have hnext : (f.done.length : Int) + 1 = ((f.done ++ [reply]).length : Int) := by
              rw [List.length_append, List.length_singleton]
              rfl
            have hroom : (f.done ++ [reply]).length < f.total := by
              rw [List.length_append, List.length_singleton]
              omega
            refine ⟨_, rfl, ?_, ?_⟩
            · intro t ht
              cases ht
            · intro _
              exact ⟨_, _, rfl, rfl, hnext, htype, helements, hobj, hplace, hroom, hrest⟩

end CloRedis
