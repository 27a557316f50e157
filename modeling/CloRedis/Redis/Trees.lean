import CloRedis.Library.Ownership
import CloRedis.Redis.Objects

/-!
Who frees a reply tree. An object owns the tree it points to when its reclaim
flag is set, and every overwrite and every destruction frees what the object
owned. A message too long for the buffer clears the flag. So the trees are
freed once each exactly in the programs that hand over no tree with such a
message, whose moves take from objects that own nothing, or pass on such a
message, and whose commands do not fail with a reply in hand.
-/

namespace CloRedis

open Library

namespace ReplyHeap

variable {H C D W : Type*}

/-- The tree an object is going to free. -/
def own (s : ReplyHeap H C) (x : H) : Option ReplyPtr :=
  (s.objects x).bind fun o => o.owned

/-- A tree that was handed out and is not freed. -/
def Live (s : ReplyHeap H C) (p : ReplyPtr) : Prop :=
  (p.path = [] ∧ p.tree < s.trees.length) ∧ p ∉ s.freed

def SoleOwner (s : ReplyHeap H C) : Prop :=
  ∀ x y p, s.own x = some p → s.own y = some p → x = y

/-- Every tree was passed to `freeReplyObject` once, and nothing else was. -/
def FreedOnce (s : ReplyHeap H C) : Prop :=
  (∀ i < s.trees.length, s.freed.count ⟨i, []⟩ = 1) ∧ ∀ p ∈ s.freed, p.path = []

def Destroyed (s : ReplyHeap H C) : Prop := ∀ x, s.objects x = none

/-- The context of a connection. -/
def context (s : ReplyHeap H C) (x : H) : Option C :=
  (s.objects x).bind fun o => o.connection.bind fun conn => conn.redisContext

/-- What a move from an object passes on as its message. -/
def errText (s : ReplyHeap H C) (x : H) : Option (List Char) :=
  (s.objects x).map fun o => o.errMsg.text

/-- A tree is handed over with a message that spares the flag, a move takes
from an object that owns nothing or passes on a message that clears the flag,
if it is not from the object itself, and a command does not fail with a reply
in hand. -/
def Careful (h : Hiredis C D W) (s : ReplyHeap H C) : ReplyStmt H C W → Prop
  | .construct _ _ _ errMsg _ => FitsErrMsg errMsg
  | .update _ (.tree _) _ errMsg => FitsErrMsg errMsg
  | .moveConstruct _ source _ => s.own source = none ∨ ¬FitsErrMsg (s.errText source)
  | .moveAssign x source => x = source ∨ s.own source = none ∨ ¬FitsErrMsg (s.errText source)
  | .doCommand x command w => ∀ c, s.context x = some c →
      (h.redisvCommand c command w).1 = none ∨ h.err (h.redisvCommand c command w).2 = 0
  | _ => True

theorem own_of_object {s : ReplyHeap H C} {x : H} {o : ReplyOrConnection C}
    (hx : s.objects x = some o) : s.own x = o.owned := by
  unfold own
  rw [hx, Option.bind_some]

theorem get_owned {s : ReplyHeap H C} {r view : ReplyObject} {index : Nat} {garbage : ErrMsg}
    (hget : s.get r index garbage = .ok view) : view.owned = none := by
  obtain ⟨found, _, rfl⟩ := map_ok.mp hget
  cases found <;> rfl

/-- What becomes of the trees in a statement: the object holds what the program
was handed, or it holds the tree of another object as well, or nobody holds
what the program was handed. -/
inductive Outcome (h : Hiredis C D W) (s : ReplyHeap H C) (stmt : ReplyStmt H C W) :
    H → Option HiredisReply → Option ReplyPtr → Prop where
  | keeps (x : H) (answer : Option HiredisReply) : Careful h s stmt →
      Outcome h s stmt x answer (answer.map fun _ => s.fresh)
  | shares (x y : H) (p : ReplyPtr) : ¬Careful h s stmt → x ≠ y → s.own y = some p →
      Outcome h s stmt x none (some p)
  | loses (x : H) (tree : HiredisReply) : ¬Careful h s stmt → Outcome h s stmt x (some tree) none

/-- Every live tree has its one owner, and no tree was freed twice. -/
structure Lawful (s : ReplyHeap H C) : Prop where
  owned : Owned s.own s.Live
  nodup : s.freed.Nodup
  known : ∀ p ∈ s.freed, p.path = [] ∧ p.tree < s.trees.length

/-- A tree that nobody is going to free. -/
def Lost (s : ReplyHeap H C) (p : ReplyPtr) : Prop := s.Live p ∧ ∀ x, s.own x ≠ some p

theorem Lawful.empty : (empty : ReplyHeap H C).Lawful where
  owned := ⟨⟨fun x p hp => by simp [own, ReplyHeap.empty] at hp,
    fun x y p hp _ => by simp [own, ReplyHeap.empty] at hp⟩,
    fun p hp => by simp [Live, ReplyHeap.empty] at hp⟩
  nodup := List.nodup_nil
  known := fun p hp => by simp [ReplyHeap.empty] at hp

theorem Lawful.soleOwner {s : ReplyHeap H C} (hs : s.Lawful) : s.SoleOwner := hs.owned.sole

theorem Lawful.fresh_not_freed {s : ReplyHeap H C} (hs : s.Lawful) : s.fresh ∉ s.freed := by
  intro hp
  exact lt_irrefl _ (hs.known s.fresh hp).2

theorem fresh_not_live (s : ReplyHeap H C) : ¬s.Live s.fresh := by
  intro hp
  exact lt_irrefl _ hp.1.2

theorem Lawful.own_ne_fresh {s : ReplyHeap H C} (hs : s.Lawful) (x : H) :
    s.own x ≠ some s.fresh := by
  intro hx
  exact s.fresh_not_live (hs.owned.held x s.fresh hx)

/-- Without objects all trees are freed, once each. -/
theorem Lawful.freedOnce {s : ReplyHeap H C} (hs : s.Lawful) (hend : s.Destroyed) :
    s.FreedOnce := by
  constructor
  · intro i hi
    have hnone : ∀ x, s.own x = none := by
      intro x
      unfold own
      rw [hend x, Option.bind_none]
    have hfreed : ⟨i, []⟩ ∈ s.freed := by
      by_contra hnot
      exact hs.owned.none_live hnone ⟨i, []⟩ ⟨⟨rfl, hi⟩, hnot⟩
    exact List.count_eq_one_of_mem hs.nodup hfreed
  · intro p hp
    exact (hs.known p hp).1

/-- A lost tree was not freed. -/
theorem Lost.not_freedOnce {s : ReplyHeap H C} {p : ReplyPtr} (hlost : s.Lost p) :
    ¬s.FreedOnce := by
  rintro ⟨honce, _⟩
  have hcount := honce p.tree hlost.1.1.2
  have hp : (⟨p.tree, []⟩ : ReplyPtr) = p := by
    rw [← hlost.1.1.1]
  rw [hp, List.count_eq_zero_of_not_mem hlost.1.2] at hcount
  exact zero_ne_one hcount

section Effects

variable [DecidableEq H]

/-- A statement lets one object go of its tree and take another, or none;
`answer` is the tree the program was handed. -/
structure Effect (s s' : ReplyHeap H C) (x : H) (answer : Option HiredisReply)
    (held : Option ReplyPtr) : Prop where
  own : s'.own = Function.update s.own x held
  freed : s'.freed = s.freed ++ (s.own x).toList
  trees : s'.trees = s.trees ++ answer.toList

theorem own_update (s : ReplyHeap H C) (x : H) (found : Option (ReplyOrConnection C))
    (trees : List HiredisReply) (freed : List ReplyPtr) :
    own ⟨trees, freed, Function.update s.objects x found⟩ =
      Function.update s.own x (found.bind fun o => o.owned) := by
  funext y
  unfold own
  by_cases hyx : y = x
  · subst hyx
    dsimp only
    rw [Function.update_self, Function.update_self]
  · dsimp only
    rw [Function.update_of_ne hyx, Function.update_of_ne hyx]

theorem store_own (s : ReplyHeap H C) (x : H) (o : ReplyOrConnection C)
    (fields : ReplyObject × List ReplyPtr) :
    (s.store x o fields).own = Function.update s.own x fields.1.owned :=
  own_update s x _ _ _

theorem store_errText (s : ReplyHeap H C) (x : H) {o : ReplyOrConnection C}
    (hx : s.objects x = some o) (fields : ReplyObject × List ReplyPtr)
    (hfields : fields.1.errMsg = o.errMsg) : (s.store x o fields).errText = s.errText := by
  funext y
  unfold errText store
  by_cases hyx : y = x
  · subst hyx
    dsimp only
    rw [Function.update_self, hx, Option.map_some, Option.map_some, hfields]
  · dsimp only
    rw [Function.update_of_ne hyx]

theorem store_effect {s : ReplyHeap H C} {x : H} {o : ReplyOrConnection C}
    (hx : s.objects x = some o) (connection : Option (ConnectionFields C))
    (answer : Option HiredisReply) (reply : Option ReplyPtr) (reclaim : Bool) (state : ErrState)
    (errMsg : Option (List Char)) :
    Effect s ((s.receive answer).store x ⟨o.toReplyObject, connection⟩
      (o.update reply reclaim state errMsg)) x answer
      (if clearsReclaim errMsg then none else if reclaim then reply else none) where
  own := by
    have hown := own_update s x (some ⟨(o.update reply reclaim state errMsg).1, connection⟩)
      (s.receive answer).trees (s.freed ++ (o.update reply reclaim state errMsg).2)
    rw [Option.bind_some] at hown
    exact hown.trans (congrArg _ (ReplyObject.updateErrMsg_owned _ errMsg))
  freed := by
    unfold store receive ReplyObject.update
    rw [own_of_object hx, ReplyObject.removeOldState_freed]
  trees := rfl

theorem place_effect {s s' : ReplyHeap H C} {z : H} {o : ReplyOrConnection C}
    {answer : Option HiredisReply} (hplace : (s.receive answer).place z o = .ok s') :
    s.objects z = none ∧ Effect s s' z answer o.owned := by
  unfold place at hplace
  cases hz : (s.receive answer).objects z with
  | some o' => simp [hz] at hplace
  | none =>
      rw [hz] at hplace
      cases hplace
      have hown : s.own z = none := by
        unfold own
        rw [show s.objects z = none from hz, Option.bind_none]
      refine ⟨hz, own_update s z _ _ _, ?_, rfl⟩
      rw [hown, Option.toList_none, List.append_nil]
      rfl

theorem place_new {s s' : ReplyHeap H C} {z : H} {o : ReplyOrConnection C}
    (hplace : s.place z o = .ok s') : s.objects z = none ∧ Effect s s' z none o.owned := by
  rw [← receive_none s] at hplace
  exact place_effect hplace

theorem destroy_effect {s : ReplyHeap H C} {x : H} {o : ReplyOrConnection C}
    (hx : s.objects x = some o) : Effect s (s.destroy x o) x none none where
  own := own_update s x none _ _
  freed := by
    unfold destroy
    rw [own_of_object hx, ReplyObject.removeOldState_freed]
  trees := (List.append_nil _).symm

theorem moveAssign_effect {s s' : ReplyHeap H C} {x y : H} (hmove : s.moveAssign x y = .ok s') :
    Effect s s' x none
      (if clearsReclaim (s.errText y) then none else if x = y then none else s.own y) := by
  unfold moveAssign at hmove
  obtain ⟨target, hx, hmove⟩ := bind_ok.mp hmove
  obtain ⟨o, hy, hmove⟩ := bind_ok.mp hmove
  obtain ⟨target', hx', rfl⟩ := map_ok.mp hmove
  have hx := find_ok hx
  have hy := find_ok hy
  have hheld : o.owned = if x = y then none else s.own y := by
    by_cases hxy : x = y
    · subst hxy
      have hafter := store_own s x target target.removeOldState
      rw [if_pos rfl, ← own_of_object hy, hafter, Function.update_self,
        ReplyObject.removeOldState_owned]
    · have hafter := store_own s x target target.removeOldState
      rw [if_neg hxy, ← own_of_object hy, hafter, Function.update_of_ne (Ne.symm hxy)]
  -- the first half of the assignment leaves the messages as they are
  have htext : s.errText y = some o.errMsg.text := by
    have hafter := store_errText s x hx target.removeOldState (target.removeOldState_errMsg)
    rw [← hafter, errText, hy, Option.map_some]
  constructor
  · rw [store_own, store_own, Function.update_idem, htext, ← hheld]
    exact congrArg _ (ReplyObject.updateErrMsg_owned _ (some o.errMsg.text))
  · rw [own_of_object hx, ← ReplyObject.removeOldState_freed]
    exact List.append_nil _
  · exact (List.append_nil _).symm

/-- A tree that is handed over is held, unless the message clears the flag. -/
theorem handed_outcome {h : Hiredis C D W} {s s' : ReplyHeap H C} {stmt : ReplyStmt H C W} {x : H}
    {tree : HiredisReply} {errMsg : Option (List Char)}
    (hcareful : Careful h s stmt ↔ FitsErrMsg errMsg)
    (heffect : Effect s s' x (some tree)
      (if clearsReclaim errMsg then none else some s.fresh)) :
    ∃ z answer held, Effect s s' z answer held ∧ Outcome h s stmt z answer held := by
  refine ⟨x, some tree, _, heffect, ?_⟩
  by_cases hclears : clearsReclaim errMsg = true
  · rw [if_pos hclears]
    apply Outcome.loses
    rw [hcareful]
    exact (clearsReclaim_iff errMsg).mp hclears
  · rw [if_neg hclears]
    apply Outcome.keeps x (some tree)
    rw [hcareful, ← not_not (a := FitsErrMsg errMsg), ← clearsReclaim_iff]
    exact hclears

theorem update_outcome {h : Hiredis C D W} {s s' : ReplyHeap H C} {x : H}
    {source : UpdateSource H} {state : ErrState} {errMsg : Option (List Char)}
    (hupdate : s.update x source state errMsg = .ok s') :
    ∃ z answer held, Effect s s' z answer held ∧
      Outcome h s (.update x source state errMsg) z answer held := by
  obtain ⟨given, hgiven, hupdate⟩ := bind_ok.mp hupdate
  obtain ⟨o, hx, rfl⟩ := map_ok.mp hupdate
  have hx := find_ok hx
  cases source with
  | null reclaim =>
      cases hgiven
      have heffect := store_effect hx o.connection none none reclaim state errMsg
      rw [receive_none, ite_self, ite_self] at heffect
      exact ⟨x, none, none, heffect, .keeps x none trivial⟩
  | tree tree =>
      cases hgiven
      have heffect :=
        store_effect (s := s) hx o.connection (some tree) (some s.fresh) true state errMsg
      rw [if_pos rfl] at heffect
      exact handed_outcome Iff.rfl heffect
  | element y index =>
      obtain ⟨array, _, hgiven⟩ := bind_ok.mp hgiven
      obtain ⟨found, _, rfl⟩ := map_ok.mp hgiven
      have heffect := store_effect hx o.connection none found false state errMsg
      rw [receive_none, if_neg Bool.false_ne_true, ite_self] at heffect
      exact ⟨x, none, none, heffect, .keeps x none trivial⟩

/-- A `Do` holds the reply it was handed, unless the context has an error. -/
theorem doCommand_effect (h : Hiredis C D W) {s : ReplyHeap H C} {x : H}
    {o : ReplyOrConnection C} {conn : ConnectionFields C} (hx : s.objects x = some o)
    (hconn : o.connection = some conn) (command : Command) (w : W) :
    (s.context x = none ∧ Effect s (s.doCommand h x o conn command w) x none none) ∨
    ∃ c, s.context x = some c ∧
      Effect s (s.doCommand h x o conn command w) x (h.redisvCommand c command w).1
        (if h.err (h.redisvCommand c command w).2 = 0 then
          (h.redisvCommand c command w).1.map fun _ => s.fresh else none) := by
  have hcontext : s.context x = conn.redisContext := by
    unfold context
    rw [hx, Option.bind_some, hconn, Option.bind_some]
  rw [hcontext]
  unfold doCommand
  dsimp only
  cases hc : conn.redisContext with
  | none =>
      have heffect := store_effect hx (some ⟨none, conn.actionCount + 1⟩) none none true
        .errorInvoke (some errBadConnection.toList)
      rw [receive_none, ite_self, ite_self] at heffect
      exact Or.inl ⟨rfl, heffect⟩
  | some c =>
      refine Or.inr ⟨c, rfl, ?_⟩
      have heffect := store_effect hx
        (some ⟨some (h.redisvCommand c command w).2, conn.actionCount + 1⟩)
        (h.redisvCommand c command w).1
      have hnothing := fun state errMsg => heffect none true state errMsg
      simp only [ite_self] at hnothing
      dsimp only
      by_cases herr : h.err (h.redisvCommand c command w).2 = 0
      · rw [if_neg (not_not.mpr herr), if_pos herr]
        cases hanswer : (h.redisvCommand c command w).1 with
        | none =>
            rw [hanswer] at hnothing
            exact hnothing _ _
        | some tree =>
            rw [hanswer] at heffect
            exact heffect (some s.fresh) true _ (some [])
      · rw [if_pos herr, if_neg herr]
        exact hnothing _ _

/-- A move leaves its argument as it is. -/
theorem move_outcome {h : Hiredis C D W} {s s' : ReplyHeap H C} {stmt : ReplyStmt H C W} {x y : H}
    (hxy : x ≠ y) (hcareful : Careful h s stmt ↔ s.own y = none ∨ ¬FitsErrMsg (s.errText y))
    (heffect : Effect s s' x none (if clearsReclaim (s.errText y) then none else s.own y)) :
    ∃ z answer held, Effect s s' z answer held ∧ Outcome h s stmt z answer held := by
  refine ⟨x, none, _, heffect, ?_⟩
  by_cases hclears : clearsReclaim (s.errText y) = true
  · rw [if_pos hclears]
    exact .keeps x none (hcareful.mpr (Or.inr ((clearsReclaim_iff _).mp hclears)))
  · rw [if_neg hclears]
    cases hy : s.own y with
    | none => exact .keeps x none (hcareful.mpr (Or.inl hy))
    | some p =>
        apply Outcome.shares x y p _ hxy hy
        rw [hcareful, hy, ← clearsReclaim_iff, not_or]
        exact ⟨Option.some_ne_none p, hclears⟩

theorem doCommand_outcome {h : Hiredis C D W} {s : ReplyHeap H C} {x : H}
    {o : ReplyOrConnection C} {conn : ConnectionFields C} {command : Command} {w : W}
    (hx : s.objects x = some o) (hconn : o.connection = some conn) :
    ∃ z answer held, Effect s (s.doCommand h x o conn command w) z answer held ∧
      Outcome h s (.doCommand x command w) z answer held := by
  obtain ⟨hcontext, heffect⟩ | ⟨c, hcontext, heffect⟩ := doCommand_effect h hx hconn command w
  · refine ⟨x, none, none, heffect, .keeps x none ?_⟩
    intro c hc
    simp [hcontext] at hc
  · have hcareful : Careful h s (.doCommand x command w) ↔
        (h.redisvCommand c command w).1 = none ∨ h.err (h.redisvCommand c command w).2 = 0 := by
      constructor
      · exact fun hall => hall c hcontext
      · intro hthis c' hc'
        cases hcontext.symm.trans hc'
        exact hthis
    refine ⟨x, _, _, heffect, ?_⟩
    by_cases herr : h.err (h.redisvCommand c command w).2 = 0
    · rw [if_pos herr]
      exact .keeps x _ (hcareful.mpr (Or.inr herr))
    · rw [if_neg herr]
      cases hanswer : (h.redisvCommand c command w).1 with
      | none => exact .keeps x none (hcareful.mpr (Or.inl hanswer))
      | some tree =>
          apply Outcome.loses
          rw [hcareful, hanswer]
          simp [herr]

theorem step_outcome {h : Hiredis C D W} {s s' : ReplyHeap H C} {stmt : ReplyStmt H C W}
    (hstep : s.step h stmt = .ok s') :
    ∃ x answer held, Effect s s' x answer held ∧ Outcome h s stmt x answer held := by
  cases stmt with
  | construct z tree state errMsg garbage =>
      have heffect := (place_effect hstep).2
      dsimp only at heffect
      rw [ReplyObject.construct_owned, if_pos rfl] at heffect
      exact handed_outcome Iff.rfl heffect
  | get z source index garbage =>
      obtain ⟨array, _, hget⟩ := bind_ok.mp hstep
      obtain ⟨view, hview, hplace⟩ := bind_ok.mp hget
      have heffect := (place_new hplace).2
      rw [show (⟨view, none⟩ : ReplyOrConnection C).owned = none from get_owned hview] at heffect
      exact ⟨z, none, none, heffect, .keeps z none trivial⟩
  | moveConstruct z source garbage =>
      obtain ⟨o, hsource, hplace⟩ := bind_ok.mp hstep
      have hsource := find_ok hsource
      obtain ⟨hz, heffect⟩ := place_new hplace
      have hne : z ≠ source := by
        rintro rfl
        simp [hz] at hsource
      apply move_outcome hne Iff.rfl
      rw [own_of_object hsource, errText, hsource, Option.map_some]
      dsimp only [ReplyObject.moved] at heffect
      rw [ReplyObject.construct_owned] at heffect
      exact heffect
  | moveAssign x source =>
      have heffect := moveAssign_effect hstep
      by_cases hx : x = source
      · rw [if_pos hx, ite_self] at heffect
        exact ⟨x, none, none, heffect, .keeps x none (Or.inl hx)⟩
      · rw [if_neg hx] at heffect
        exact move_outcome hx (or_iff_right hx) heffect
  | update x source state errMsg =>
      exact update_outcome hstep
  | connection z redisContext garbage =>
      have heffect := (place_new hstep).2
      exact ⟨z, none, none, heffect, .keeps z none trivial⟩
  | doCommand x command w =>
      obtain ⟨o, hx, hdo⟩ := bind_ok.mp hstep
      have hx := find_ok hx
      cases hconn : o.connection with
      | none => simp [hconn] at hdo
      | some conn =>
          rw [hconn] at hdo
          cases hdo
          exact doCommand_outcome hx hconn
  | destroy x =>
      obtain ⟨o, hx, rfl⟩ := map_ok.mp hstep
      exact ⟨x, none, none, destroy_effect (find_ok hx), .keeps x none trivial⟩

section Step

variable {s s' : ReplyHeap H C} {x : H} {answer : Option HiredisReply} {held : Option ReplyPtr}

theorem Effect.live_iff (heffect : Effect s s' x answer held) (p : ReplyPtr) :
    s'.Live p ↔ (p.path = [] ∧ p.tree < s.trees.length + answer.toList.length) ∧
      p ∉ s.freed ∧ s.own x ≠ some p := by
  unfold Live
  rw [heffect.trees, heffect.freed, List.length_append, List.mem_append, Option.mem_toList, not_or]

/-- The trees that are live after a statement that keeps what it is handed. -/
theorem Effect.keeps_live (hs : s.Lawful)
    (heffect : Effect s s' x answer (answer.map fun _ => s.fresh)) (p : ReplyPtr) :
    s'.Live p ↔ (s.Live p ∧ s.own x ≠ some p) ∨ (answer.map fun _ => s.fresh) = some p := by
  rw [heffect.live_iff]
  cases answer with
  | none => simp [Live, and_assoc]
  | some tree =>
      rw [Option.map_some, Option.some.injEq, Option.toList_some, List.length_singleton]
      constructor
      · rintro ⟨⟨hpath, hlt⟩, hfreed, hown⟩
        by_cases hold : p.tree < s.trees.length
        · exact Or.inl ⟨⟨⟨hpath, hold⟩, hfreed⟩, hown⟩
        · have heq : p.tree = s.trees.length := by omega
          right
          rw [fresh, ← heq, ← hpath]
      · rintro (⟨⟨⟨hpath, hlt⟩, hfreed⟩, hown⟩ | rfl)
        · exact ⟨⟨hpath, Nat.lt_succ_of_lt hlt⟩, hfreed, hown⟩
        · exact ⟨⟨rfl, Nat.lt_succ_self _⟩, hs.fresh_not_freed, hs.own_ne_fresh x⟩

theorem Lawful.keeps (hs : s.Lawful)
    (heffect : Effect s s' x answer (answer.map fun _ => s.fresh)) : s'.Lawful where
  owned := by
    have hlive := heffect.keeps_live hs
    -- the object gives back what it owned, then takes what was handed out
    have hgiven : Owned (Function.update s.own x none) fun p => s.Live p ∧ s.own x ≠ some p :=
      hs.owned.give x fun p => Iff.rfl
    have htaken := hgiven.take (Function.update_self ..) (fun p hp hbefore => ?_) hlive
    · rw [Function.update_idem] at htaken
      rw [heffect.own]
      exact htaken
    · cases answer with
      | none => cases hp
      | some tree =>
          cases hp
          exact s.fresh_not_live hbefore.1
  nodup := by
    rw [heffect.freed]
    refine List.nodup_append'.mpr ⟨hs.nodup, ?_, ?_⟩
    · cases s.own x <;> simp
    · intro p hp hx
      exact (hs.owned.held x p (Option.mem_toList.mp hx)).2 hp
  known := by
    intro p hp
    rw [heffect.freed, List.mem_append, Option.mem_toList] at hp
    have hold : p.path = [] ∧ p.tree < s.trees.length := by
      rcases hp with hp | hp
      · exact hs.known p hp
      · exact (hs.owned.held x p hp).1
    rw [heffect.trees, List.length_append]
    exact ⟨hold.1, Nat.lt_add_right _ hold.2⟩

/-- A lost tree stays lost. -/
theorem Lost.step {h : Hiredis C D W} {stmt : ReplyStmt H C W} {p : ReplyPtr} (hlost : s.Lost p)
    (heffect : Effect s s' x answer held) (houtcome : Outcome h s stmt x answer held) :
    s'.Lost p := by
  constructor
  · rw [heffect.live_iff]
    exact ⟨⟨hlost.1.1.1, Nat.lt_add_right _ hlost.1.1.2⟩, hlost.1.2, hlost.2 x⟩
  · intro y hy
    rw [heffect.own] at hy
    by_cases hyx : y = x
    · subst hyx
      rw [Function.update_self] at hy
      cases houtcome with
      | keeps _ _ =>
          cases answer with
          | none => cases hy
          | some tree =>
              cases hy
              exact s.fresh_not_live hlost.1
      | shares z q _ _ hz => exact hlost.2 z (hz.trans hy)
      | loses _ _ => cases hy
    · rw [Function.update_of_ne hyx] at hy
      exact hlost.2 y hy

theorem Lawful.loses (hs : s.Lawful) {tree : HiredisReply}
    (heffect : Effect s s' x (some tree) none) : s'.Lost s.fresh := by
  constructor
  · rw [heffect.live_iff]
    exact ⟨⟨rfl, Nat.lt_succ_self _⟩, hs.fresh_not_freed, hs.own_ne_fresh x⟩
  · intro y hy
    rw [heffect.own] at hy
    by_cases hyx : y = x
    · subst hyx
      simp at hy
    · rw [Function.update_of_ne hyx] at hy
      exact hs.own_ne_fresh y hy

/-- After a move both objects own the tree. -/
theorem Effect.shares {y : H} {p : ReplyPtr} (heffect : Effect s s' x none (some p)) (hxy : x ≠ y)
    (hy : s.own y = some p) : ¬s'.SoleOwner := by
  intro hsole
  apply hxy
  apply hsole x y p
  · rw [heffect.own, Function.update_self]
  · rw [heffect.own, Function.update_of_ne (Ne.symm hxy), hy]

end Step

section Program

variable {h : Hiredis C D W} {s s' t : ReplyHeap H C} {program : List (ReplyStmt H C W)}

theorem Lawful.step (hs : s.Lawful) {stmt : ReplyStmt H C W} (hcareful : Careful h s stmt)
    (hstep : s.step h stmt = .ok s') : s'.Lawful := by
  obtain ⟨x, answer, held, heffect, houtcome⟩ := step_outcome hstep
  cases houtcome with
  | keeps _ _ => exact hs.keeps heffect
  | shares y p hnot _ _ => exact absurd hcareful hnot
  | loses tree hnot => exact absurd hcareful hnot

theorem Lost.run {p : ReplyPtr} (hlost : s.Lost p)
    (hrun : run (ReplyHeap.step h) s program = .ok t) : t.Lost p := by
  apply run_invariant (I := fun s => s.Lost p) _ hlost hrun
  intro s stmt s' hlost hstep
  obtain ⟨x, answer, held, heffect, houtcome⟩ := step_outcome hstep
  exact hlost.step heffect houtcome

/-- A program that keeps the law is careful, statement by statement. -/
theorem Lawful.along (hs : s.Lawful) (hrun : run (ReplyHeap.step h) s program = .ok t)
    (hsole : Throughout (ReplyHeap.step h) SoleOwner s program) (honce : t.FreedOnce) :
    Along (ReplyHeap.step h) (Careful h) s program := by
  induction program generalizing s with
  | nil => trivial
  | cons stmt program ih =>
      obtain ⟨s', hstep, hrest⟩ := run_cons_ok.mp hrun
      have hlater := hsole.2 s' hstep
      have hcareful : Careful h s stmt := by
        obtain ⟨x, answer, held, heffect, houtcome⟩ := step_outcome hstep
        cases houtcome with
        | keeps _ hcareful => exact hcareful
        | shares y p _ hxy hy => exact absurd hlater.head (heffect.shares hxy hy)
        | loses tree _ => exact absurd honce ((hs.loses heffect).run hrest).not_freedOnce
      refine ⟨hcareful, ?_⟩
      intro s'' hstep'
      cases hstep.symm.trans hstep'
      exact ih (hs.step hcareful hstep) hrest hlater

/-- The law of the reply trees holds of a program exactly when it is careful. -/
theorem freed_once_iff (hrun : run (step h) empty program = .ok t) (hend : t.Destroyed) :
    (Throughout (step h) SoleOwner empty program ∧ t.FreedOnce) ↔
      Along (step h) (Careful h) empty program := by
  constructor
  · rintro ⟨hsole, honce⟩
    exact Lawful.empty.along hrun hsole honce
  · intro hcareful
    have hstep : ∀ (s : ReplyHeap H C) stmt s', s.Lawful → Careful h s stmt →
        s.step h stmt = .ok s' → s'.Lawful := fun s stmt s' hs hc hstep => hs.step hc hstep
    have hlawful : t.Lawful := invariant_of_along hstep Lawful.empty hcareful hrun
    exact ⟨throughout_of_along (fun s hs => hs.soleOwner) hstep Lawful.empty hcareful,
      hlawful.freedOnce hend⟩

/-- A server that answers every command. -/
def okServer : Server Unit Unit where
  accept _ _ _ := ()
  exec s _ := (s, [{ type := .status, str := "OK".toList }])
  db _ := 0

def uninitialised : ErrMsg where
  cells := List.replicate redisErrstrLen '?'
  size_eq := List.length_replicate

def pairReply : HiredisReply where
  type := .array
  element := [{ type := .integer, integer := 1 }, { type := .integer, integer := 2 }]

/-- A view is moved, the view takes a tree of its own, and a connection
overwrites its reply. -/
def viewProgram : List (ReplyStmt (Fin 4) (RedisContext Unit) Wire) :=
  [.construct 0 pairReply .ok (some "pair".toList) uninitialised, .get 1 0 1 uninitialised,
    .moveConstruct 2 1 uninitialised, .update 2 (.tree pairReply) .ok (some "again".toList),
    .connection 3 (some ⟨0, [], [], [], [], ()⟩) uninitialised,
    .doCommand 3 (.words ["PING"]) ⟨true, none, none, .ok 0⟩,
    .doCommand 3 (.words ["PING"]) ⟨true, none, none, .ok 0⟩,
    .destroy 2, .destroy 0, .destroy 1, .destroy 3]

theorem viewProgram_frees_once :
    ∃ t, run (step (hiredis okServer)) empty viewProgram = .ok t ∧ t.trees.length = 4 ∧
      (Throughout (step (hiredis okServer)) SoleOwner empty viewProgram ∧ t.FreedOnce) := by
  obtain ⟨t, hrun, hlength, hend⟩ : ∃ t, run (step (hiredis okServer)) empty viewProgram = .ok t ∧
      t.trees.length = 4 ∧ t.Destroyed := by
    refine ⟨_, rfl, rfl, ?_⟩
    intro x
    fin_cases x <;> rfl
  refine ⟨t, hrun, hlength, (freed_once_iff hrun hend).mpr ?_⟩
  refine ⟨(by decide : FitsErrMsg (some "pair".toList)), ?_⟩
  rintro s ⟨⟩
  refine ⟨trivial, ?_⟩
  rintro s ⟨⟩
  refine ⟨Or.inl rfl, ?_⟩
  rintro s ⟨⟩
  refine ⟨(by decide : FitsErrMsg (some "again".toList)), ?_⟩
  rintro s ⟨⟩
  refine ⟨trivial, ?_⟩
  rintro s ⟨⟩
  refine ⟨?_, ?_⟩
  · rintro c ⟨⟩
    exact Or.inr rfl
  rintro s ⟨⟩
  refine ⟨?_, ?_⟩
  · rintro c ⟨⟩
    exact Or.inr rfl
  rintro s ⟨⟩
  exact ⟨trivial, fun s _ =>
    ⟨trivial, fun s _ => ⟨trivial, fun s _ => ⟨trivial, fun s _ => trivial⟩⟩⟩⟩

/-- The object moved from frees the tree as well. -/
theorem move_frees_twice :
    ∃ t, run (step (hiredis okServer)) (empty : ReplyHeap (Fin 2) (RedisContext Unit))
        [.construct 0 pairReply .ok (some []) uninitialised, .moveConstruct 1 0 uninitialised,
          .destroy 1, .destroy 0] = .ok t ∧
      t.Destroyed ∧ t.freed.count ⟨0, []⟩ = 2 ∧ ¬t.FreedOnce := by
  refine ⟨_, rfl, ?_, rfl, ?_⟩
  · intro x
    fin_cases x <;> rfl
  · rintro ⟨honce, _⟩
    have hcount := honce 0 (by decide)
    revert hcount
    decide

end Program

/-- An object frees through a pointer to a root, never through an element. -/
structure Rooted (s : ReplyHeap H C) : Prop where
  owned : ∀ x p, s.own x = some p → p.path = []
  freed : ∀ p ∈ s.freed, p.path = []

theorem Rooted.step {h : Hiredis C D W} {s s' : ReplyHeap H C} {stmt : ReplyStmt H C W}
    (hs : s.Rooted) (hstep : s.step h stmt = .ok s') : s'.Rooted := by
  obtain ⟨x, answer, held, heffect, houtcome⟩ := step_outcome hstep
  have hheld : ∀ p, held = some p → p.path = [] := by
    intro p hp
    cases houtcome with
    | keeps _ _ =>
        cases answer with
        | none => cases hp
        | some tree =>
            cases hp
            rfl
    | shares y q _ _ hy => exact hs.owned y p (hy.trans hp)
    | loses _ _ => cases hp
  constructor
  · intro y p hy
    rw [heffect.own] at hy
    by_cases hyx : y = x
    · subst hyx
      rw [Function.update_self] at hy
      exact hheld p hy
    · rw [Function.update_of_ne hyx] at hy
      exact hs.owned y p hy
  · intro p hp
    rw [heffect.freed, List.mem_append, Option.mem_toList] at hp
    rcases hp with hp | hp
    · exact hs.freed p hp
    · exact hs.owned x p hp

/-- Whatever a program does, only roots are freed. -/
theorem only_roots_freed {h : Hiredis C D W} {t : ReplyHeap H C}
    {program : List (ReplyStmt H C W)} (hrun : run (ReplyHeap.step h) empty program = .ok t) :
    ∀ p ∈ t.freed, p.path = [] := by
  have hempty : (empty : ReplyHeap H C).Rooted :=
    ⟨fun x p hp => by simp [own, empty] at hp, fun p hp => by simp [empty] at hp⟩
  exact (run_invariant (fun s stmt s' hs hstep => hs.step hstep) hempty hrun).freed

/-- The program reads an element of its reply and moves the view. -/
theorem only_roots_freed_of_view :
    ∃ t, run (step (hiredis okServer)) (empty : ReplyHeap (Fin 4) (RedisContext Unit))
        viewProgram = .ok t ∧
      ∀ p ∈ t.freed, p.path = [] := by
  obtain ⟨t, hrun⟩ : ∃ t, run (step (hiredis okServer))
      (empty : ReplyHeap (Fin 4) (RedisContext Unit)) viewProgram = .ok t :=
    ⟨_, rfl⟩
  exact ⟨t, hrun, only_roots_freed hrun⟩

end Effects

section Vendored

variable {S N : Type*} (server : Server S N) {s : ReplyHeap H (RedisContext S)} {x : H}
  {c : RedisContext S} {argv : List String} {w : Wire}

/-- The vendored library answers from its reader before it looks at the error
of the context, so a reply can come with an error. -/
theorem pending_reply_lost {reply : HiredisReply} {rest : List HiredisReply}
    (hcontext : s.context x = some c) (herr : c.err ≠ 0) (hreader : c.reader = reply :: rest)
    (hgrown : w.grown = true) (hformed : w.malformed = none) :
    ¬Careful (hiredis server) s (.doCommand x (.words argv) w) := by
  intro hcareful
  have hanswer : (hiredis server).redisvCommand c (.words argv) w =
      (some reply, { c with obuf := c.obuf ++ [argv], reader := rest }) := by
    simp [hiredis, RedisContext.redisvCommand, RedisContext.redisGetReply, hgrown, hformed, hreader]
  rcases hcareful c hcontext with hnone | hzero
  · rw [hanswer] at hnone
    cases hnone
  · rw [hanswer] at hzero
    exact herr hzero

/-- A context that has no error, or nothing unread, loses no reply. -/
theorem hiredis_careful {command : Command}
    (hcontext : ∀ c, s.context x = some c → c.err = 0 ∨ c.reader = []) :
    Careful (hiredis server) s (.doCommand x command w) := by
  intro c hc
  show (RedisContext.redisvCommand server c command w).1 = none ∨
    (RedisContext.redisvCommand server c command w).2.err = 0
  cases command with
  | outOfMemory => exact Or.inl rfl
  | invalidFormat => exact Or.inl rfl
  | words argv =>
      unfold RedisContext.redisvCommand RedisContext.redisGetReply
      dsimp only
      split
      · cases w.malformed with
        | some text => exact Or.inl rfl
        | none =>
            cases hreader : c.reader with
            | cons reply rest =>
                rcases hcontext c hc with herr | hempty
                · exact Or.inr herr
                · rw [hreader] at hempty
                  cases hempty
            | nil =>
                dsimp only
                unfold RedisContext.flushAndRead
                dsimp only
                split
                · exact Or.inl rfl
                · rename_i herr
                  split
                  · exact Or.inl rfl
                  · split
                    · exact Or.inl rfl
                    · exact Or.inl rfl
                    · exact Or.inr (not_not.mp herr)
      · exact Or.inl rfl

end Vendored

end ReplyHeap

end CloRedis
