import CloRedis.Redis.Objects

/-!
What one connection sees of the heap. Behind its pointer lies a node of a
tree, and as long as no pointer of the program misses its tree, a `Do` on the
heap does to the connection what `RedisConnectionImpl.doCommand` does to a
connection that holds the node itself.
-/

namespace CloRedis

open Library

/-- The node behind one more index. -/
theorem HiredisReply.node_concat (tree : HiredisReply) (path : List Nat) (i : Nat) :
    tree.node (path ++ [i]) = (tree.node path).bind fun node => node.element[i]? := by
  induction path generalizing tree with
  | nil =>
      show (tree.element[i]?).bind some = tree.element[i]?
      cases tree.element[i]? <;> rfl
  | cons j path ih =>
      simp only [List.cons_append, HiredisReply.node, Option.bind_assoc, ih]

/-- What `RemoveOldState` frees. -/
def RedisReply.owned (r : RedisReply) : Option HiredisReply := if r.reclaim then r.reply else none

theorem RedisReply.update_eq (r : RedisReply) (reply : Option HiredisReply) (reclaim : Bool)
    (state : ErrState) (errMsg : Option (List Char)) :
    r.update reply reclaim state errMsg =
      ⟨reply, state, r.errMsg.updateErrMsg errMsg, reclaim && !clearsReclaim errMsg,
        r.owned.toList ++ r.freed⟩ := by
  unfold RedisReply.update RedisReply.removeOldState RedisReply.owned
  cases r.reply with
  | none => cases r.reclaim <;> rfl
  | some tree => cases r.reclaim <;> rfl

theorem ReplyObject.update_eq (r : ReplyObject) (reply : Option ReplyPtr) (reclaim : Bool)
    (state : ErrState) (errMsg : Option (List Char)) :
    r.update reply reclaim state errMsg =
      (⟨reply, state, r.errMsg.updateErrMsg errMsg, reclaim && !clearsReclaim errMsg⟩,
        r.owned.toList) := by
  unfold ReplyObject.update
  rw [r.removeOldState_freed]
  unfold ReplyObject.removeOldState
  cases r.reply with
  | none => rfl
  | some p => cases r.reclaim <;> rfl

namespace ReplyHeap

variable {H C D W P : Type*}

/-- A pointer that leads to a node. -/
def Leads (s : ReplyHeap H C) (p : ReplyPtr) : Prop := ∃ node, s.nodeAt p = some node

structure Resolved (s : ReplyHeap H C) : Prop where
  objects : ∀ x o, s.objects x = some o → ∀ p ∈ o.reply, s.Leads p
  freed : ∀ p ∈ s.freed, s.Leads p

/-- The fields of an object with the node in place of the pointer. -/
def replyValue (s : ReplyHeap H C) (r : ReplyObject) : RedisReply where
  reply := r.reply.bind s.nodeAt
  errState := r.errState
  errMsg := r.errMsg
  reclaim := r.reclaim
  freed := (s.freed.filterMap s.nodeAt).reverse

def value (s : ReplyHeap H C) (r : ReplyObject) (conn : ConnectionFields C) (pool : Option P) :
    RedisConnectionImpl C P where
  toRedisReply := s.replyValue r
  redisContext := conn.redisContext
  pool := pool
  actionCount := conn.actionCount

theorem nodeAt_receive {s : ReplyHeap H C} {p : ReplyPtr} (hp : s.Leads p)
    (answer : Option HiredisReply) : (s.receive answer).nodeAt p = s.nodeAt p := by
  obtain ⟨node, hnode⟩ := hp
  unfold nodeAt receive at *
  have hlt : p.tree < s.trees.length := by
    by_contra hge
    rw [List.getElem?_eq_none (not_lt.mp hge)] at hnode
    cases hnode
  rw [List.getElem?_append_left hlt]

theorem Leads.receive {s : ReplyHeap H C} {p : ReplyPtr} (hp : s.Leads p)
    (answer : Option HiredisReply) : (s.receive answer).Leads p := by
  unfold Leads
  rwa [nodeAt_receive hp]

theorem nodeAt_fresh (s : ReplyHeap H C) (tree : HiredisReply) :
    (s.receive (some tree)).nodeAt s.fresh = some tree := by
  unfold nodeAt receive fresh
  rw [Option.toList_some, List.getElem?_concat_length]
  rfl

theorem fresh_leads (s : ReplyHeap H C) (answer : Option HiredisReply) :
    ∀ p ∈ answer.map fun _ => s.fresh, (s.receive answer).Leads p := by
  intro p hp
  cases answer with
  | none => cases hp
  | some tree =>
      cases hp
      exact ⟨tree, s.nodeAt_fresh tree⟩

theorem Resolved.receive {s : ReplyHeap H C} (hs : s.Resolved) (answer : Option HiredisReply) :
    (s.receive answer).Resolved where
  objects := fun x o hx p hp => (hs.objects x o hx p hp).receive answer
  freed := fun p hp => (hs.freed p hp).receive answer

theorem replyValue_receive {s : ReplyHeap H C} (hs : s.Resolved) {r : ReplyObject}
    (hr : ∀ p ∈ r.reply, s.Leads p) (answer : Option HiredisReply) :
    (s.receive answer).replyValue r = s.replyValue r := by
  have hreply : r.reply.bind (s.receive answer).nodeAt = r.reply.bind s.nodeAt := by
    cases hp : r.reply with
    | none => rfl
    | some p => exact nodeAt_receive (hr p hp) answer
  have hfreed : (s.receive answer).freed.filterMap (s.receive answer).nodeAt =
      s.freed.filterMap s.nodeAt :=
    List.filterMap_congr fun p hp => nodeAt_receive (hs.freed p hp) answer
  unfold replyValue
  rw [hreply, hfreed]

/-- What an overwrite frees, as nodes. -/
theorem owned_value {s : ReplyHeap H C} {r : ReplyObject} (hr : ∀ p ∈ r.reply, s.Leads p) :
    r.owned.toList.filterMap s.nodeAt = (s.replyValue r).owned.toList := by
  unfold ReplyObject.owned RedisReply.owned replyValue
  cases r.reclaim with
  | false => rfl
  | true =>
      cases hp : r.reply with
      | none => rfl
      | some p =>
          obtain ⟨node, hnode⟩ := hr p hp
          simp [hnode]

/-- An `Update` through pointers is the one on what they lead to. -/
theorem update_value [DecidableEq H] {s : ReplyHeap H C} {r : ReplyObject}
    (hr : ∀ p ∈ r.reply, s.Leads p) (x : H) (o : ReplyOrConnection C) (reply : Option ReplyPtr)
    (reclaim : Bool) (state : ErrState) (errMsg : Option (List Char)) :
    (s.store x o (r.update reply reclaim state errMsg)).replyValue
        (r.update reply reclaim state errMsg).1 =
      (s.replyValue r).update (reply.bind s.nodeAt) reclaim state errMsg := by
  have hfreed : ((s.freed ++ r.owned.toList).filterMap s.nodeAt).reverse =
      (s.replyValue r).owned.toList ++ (s.replyValue r).freed := by
    rw [List.filterMap_append, List.reverse_append, owned_value hr]
    exact congrArg₂ _ (by cases (s.replyValue r).owned <;> rfl) rfl
  rw [RedisReply.update_eq, ReplyObject.update_eq, ← hfreed]
  rfl

theorem Resolved.owned_leads {s : ReplyHeap H C} (hs : s.Resolved) {x : H} {o : ReplyOrConnection C}
    (hx : s.objects x = some o) :
    ∀ p ∈ o.owned.toList, s.Leads p := by
  intro p hp
  apply hs.objects x o hx
  unfold ReplyObject.owned at hp
  cases hreclaim : o.reclaim <;> simp_all

theorem deref_ok {s : ReplyHeap H C} {p : ReplyPtr} {node : HiredisReply}
    (hderef : s.deref p = .ok node) : s.nodeAt p = some node := by
  unfold deref at hderef
  split at hderef
  · cases hderef
  · cases hp : s.nodeAt p with
    | none => simp [hp] at hderef
    | some found =>
        rw [hp] at hderef
        cases hderef
        rfl

/-- An element of an array is there. -/
theorem element_leads {s : ReplyHeap H C} {r : ReplyObject} {index : Nat}
    {found : Option ReplyPtr} (hfound : s.element r index = .ok found) :
    ∀ p ∈ found, s.Leads p := by
  unfold element at hfound
  cases hr : r.reply with
  | none =>
      rw [hr] at hfound
      cases hfound
      simp
  | some p =>
      rw [hr] at hfound
      obtain ⟨node, hderef, rfl⟩ := map_ok.mp hfound
      have hnode := deref_ok hderef
      intro q hq
      split at hq
      · cases hq
      · rename_i hthere
        cases hq
        have hlt : index < node.element.length := by
          rw [not_or, not_le] at hthere
          exact hthere.2
        refine ⟨node.element[index], ?_⟩
        unfold nodeAt at hnode ⊢
        simp only [HiredisReply.node_concat, ← Option.bind_assoc, hnode, Option.bind_some,
          List.getElem?_eq_getElem hlt]

section Steps

variable [DecidableEq H] {s s' : ReplyHeap H C} {x : H} {o : ReplyOrConnection C}

/-- `doCommand` on the heap is `doCommand` on the connection it shows. -/
theorem doCommand_value (h : Hiredis C D W) (hs : s.Resolved) (hx : s.objects x = some o)
    (conn : ConnectionFields C) (command : Command) (w : W) (pool : Option P) :
    ∃ o' conn', (s.doCommand h x o conn command w).objects x = some o' ∧
      o'.connection = some conn' ∧
      (s.doCommand h x o conn command w).value o'.toReplyObject conn' pool =
        (s.value o.toReplyObject conn pool).doCommand h command w := by
  have ho := hs.objects x o hx
  unfold doCommand RedisConnectionImpl.doCommand
  dsimp only
  rw [show (s.value o.toReplyObject conn pool).redisContext = conn.redisContext from rfl]
  cases hc : conn.redisContext with
  | none =>
      refine ⟨_, _, Function.update_self .., rfl, ?_⟩
      have hupdate := update_value ho x ⟨o.toReplyObject, some ⟨none, conn.actionCount + 1⟩⟩
        none true .errorInvoke (some errBadConnection.toList)
      exact congrArg (fun r => RedisConnectionImpl.mk r none pool (conn.actionCount + 1)) hupdate
  | some c =>
      dsimp only
      -- the tree the command hands out moves no other pointer
      have hbefore := hs.receive (h.redisvCommand c command w).1
      have hupdate := update_value (hbefore.objects x o hx) x
        ⟨o.toReplyObject, some ⟨some (h.redisvCommand c command w).2, conn.actionCount + 1⟩⟩
      rw [replyValue_receive hs ho] at hupdate
      by_cases herr : h.err (h.redisvCommand c command w).2 = 0
      · rw [if_neg (not_not.mpr herr), if_neg (not_not.mpr herr)]
        cases hanswer : (h.redisvCommand c command w).1 with
        | none =>
            refine ⟨_, _, Function.update_self .., rfl, ?_⟩
            rw [hanswer] at hupdate
            exact congrArg (fun r => RedisConnectionImpl.mk r _ pool (conn.actionCount + 1))
              (hupdate none true _ _)
        | some tree =>
            refine ⟨_, _, Function.update_self .., rfl, ?_⟩
            rw [hanswer] at hupdate
            have hfresh := hupdate (some s.fresh) true .ok (some [])
            rw [Option.bind_some, nodeAt_fresh] at hfresh
            exact congrArg (fun r => RedisConnectionImpl.mk r _ pool (conn.actionCount + 1)) hfresh
      · rw [if_pos herr, if_pos herr]
        refine ⟨_, _, Function.update_self .., rfl, ?_⟩
        exact congrArg (fun r => RedisConnectionImpl.mk r _ pool (conn.actionCount + 1))
          (hupdate none true _ _)

/-- An object with a pointer that leads somewhere takes the place of another
or of none, and what is freed besides leads somewhere as well. -/
theorem Resolved.set (hs : s.Resolved) {o : Option (ReplyOrConnection C)}
    (ho : ∀ r ∈ o, ∀ p ∈ r.reply, s.Leads p) {freed : List ReplyPtr}
    (hfreed : ∀ p ∈ freed, s.Leads p) :
    Resolved ⟨s.trees, s.freed ++ freed, Function.update s.objects x o⟩ where
  objects := by
    intro y r hy p hp
    by_cases hyx : y = x
    · subst hyx
      dsimp only at hy
      rw [Function.update_self] at hy
      exact ho r hy p hp
    · dsimp only at hy
      rw [Function.update_of_ne hyx] at hy
      exact hs.objects y r hy p hp
  freed := by
    intro p hp
    rcases List.mem_append.mp hp with hp | hp
    · exact hs.freed p hp
    · exact hfreed p hp

theorem Resolved.store (hs : s.Resolved) (hx : s.objects x = some o)
    (connection : Option (ConnectionFields C)) (answer : Option HiredisReply)
    (reply : Option ReplyPtr) (hreply : ∀ p ∈ reply, (s.receive answer).Leads p) (reclaim : Bool)
    (state : ErrState) (errMsg : Option (List Char)) :
    ((s.receive answer).store x ⟨o.toReplyObject, connection⟩
      (o.update reply reclaim state errMsg)).Resolved := by
  have hbefore := hs.receive answer
  rw [ReplyObject.update_eq]
  apply hbefore.set
  · rintro r ⟨⟩ p hp
    exact hreply p hp
  · exact hbefore.owned_leads hx

theorem Resolved.place (hs : s.Resolved) {answer : Option HiredisReply} {z : H}
    {o : ReplyOrConnection C} (ho : ∀ p ∈ o.reply, (s.receive answer).Leads p)
    (hplace : (s.receive answer).place z o = .ok s') : s'.Resolved := by
  unfold ReplyHeap.place at hplace
  cases hz : (s.receive answer).objects z with
  | some o' => simp [hz] at hplace
  | none =>
      rw [hz] at hplace
      cases hplace
      have hnone : ∀ p ∈ ([] : List ReplyPtr), (s.receive answer).Leads p := by simp
      have hset := (hs.receive answer).set (x := z) (o := some o)
        (fun r hr p hp => ho p (Option.some.inj hr ▸ hp)) hnone
      rwa [List.append_nil] at hset

theorem Resolved.update (hs : s.Resolved) {source : UpdateSource H} {state : ErrState}
    {errMsg : Option (List Char)} (hupdate : s.update x source state errMsg = .ok s') :
    s'.Resolved := by
  obtain ⟨given, hgiven, hupdate⟩ := bind_ok.mp hupdate
  obtain ⟨o, hx, rfl⟩ := map_ok.mp hupdate
  have hx := find_ok hx
  cases source with
  | null reclaim =>
      cases hgiven
      have hstore := hs.store hx o.connection none none (by simp) reclaim state errMsg
      rwa [receive_none] at hstore
  | tree tree =>
      cases hgiven
      exact hs.store hx o.connection (some tree) (some s.fresh) (s.fresh_leads (some tree)) true
        state errMsg
  | element y index =>
      obtain ⟨array, _, hgiven⟩ := bind_ok.mp hgiven
      obtain ⟨found, hfound, rfl⟩ := map_ok.mp hgiven
      have hleads := element_leads hfound
      rw [← receive_none s] at hleads
      have hstore := hs.store hx o.connection none found hleads false state errMsg
      rwa [receive_none] at hstore

theorem Resolved.moveAssign (hs : s.Resolved) {y : H} (hmove : s.moveAssign x y = .ok s') :
    s'.Resolved := by
  unfold ReplyHeap.moveAssign at hmove
  obtain ⟨target, hx, hmove⟩ := bind_ok.mp hmove
  obtain ⟨o, hy, hmove⟩ := bind_ok.mp hmove
  obtain ⟨target', hx', rfl⟩ := map_ok.mp hmove
  have hx := find_ok hx
  have hfirst : (s.store x target target.removeOldState).Resolved := by
    apply hs.set
    · rintro r ⟨⟩ p hp
      apply hs.objects x target hx
      revert hp
      show p ∈ target.removeOldState.1.reply → p ∈ target.reply
      unfold ReplyObject.removeOldState
      split
      · split <;> simp
      · exact id
    · rw [ReplyObject.removeOldState_freed]
      exact hs.owned_leads hx
  apply hfirst.set
  · rintro r ⟨⟩ p hp
    exact hfirst.objects y o (find_ok hy) p hp
  · simp

theorem Resolved.doCommand (h : Hiredis C D W) (hs : s.Resolved) (hx : s.objects x = some o)
    (conn : ConnectionFields C) (command : Command) (w : W) :
    (s.doCommand h x o conn command w).Resolved := by
  unfold ReplyHeap.doCommand
  dsimp only
  cases conn.redisContext with
  | none =>
      have hstore := hs.store hx (some ⟨none, conn.actionCount + 1⟩) none none (by simp)
        true .errorInvoke (some errBadConnection.toList)
      rwa [receive_none] at hstore
  | some c =>
      have hstore := hs.store hx
        (some ⟨some (h.redisvCommand c command w).2, conn.actionCount + 1⟩)
        (h.redisvCommand c command w).1
      dsimp only
      split
      · exact hstore none (by simp) true _ _
      · cases hanswer : (h.redisvCommand c command w).1 with
        | none =>
            rw [hanswer] at hstore
            exact hstore none (by simp) true _ _
        | some tree =>
            rw [hanswer] at hstore
            exact hstore (some s.fresh) (s.fresh_leads (some tree)) true _ _

theorem Resolved.step {h : Hiredis C D W} (hs : s.Resolved) {stmt : ReplyStmt H C W}
    (hstep : s.step h stmt = .ok s') : s'.Resolved := by
  cases stmt with
  | construct z tree state errMsg garbage => exact hs.place (s.fresh_leads (some tree)) hstep
  | get z source index garbage =>
      obtain ⟨array, _, hget⟩ := bind_ok.mp hstep
      obtain ⟨view, hview, hplace⟩ := bind_ok.mp hget
      obtain ⟨found, hfound, rfl⟩ := map_ok.mp hview
      rw [← receive_none s] at hplace
      refine hs.place ?_ hplace
      rw [receive_none]
      have hleads := element_leads hfound
      cases found with
      | none => simp [ReplyObject.new, ReplyObject.construct]
      | some p => exact hleads
  | moveConstruct z source garbage =>
      obtain ⟨o, hsource, hplace⟩ := bind_ok.mp hstep
      rw [← receive_none s] at hplace
      refine hs.place ?_ hplace
      rw [receive_none]
      exact hs.objects source o (find_ok hsource)
  | moveAssign x source => exact hs.moveAssign hstep
  | update x source state errMsg => exact hs.update hstep
  | connection z redisContext garbage =>
      have hplace : s.place z ⟨ReplyObject.new garbage, some ⟨redisContext, 0⟩⟩ = .ok s' := hstep
      rw [← receive_none s] at hplace
      refine hs.place ?_ hplace
      simp [ReplyObject.new, ReplyObject.construct]
  | doCommand x command w =>
      obtain ⟨o, hx, hdo⟩ := bind_ok.mp hstep
      cases hconn : o.connection with
      | none => simp [hconn] at hdo
      | some conn =>
          rw [hconn] at hdo
          cases hdo
          exact hs.doCommand h (find_ok hx) conn command w
  | destroy x =>
      obtain ⟨o, hx, rfl⟩ := map_ok.mp hstep
      apply hs.set (o := none) (by simp)
      rw [ReplyObject.removeOldState_freed]
      exact hs.owned_leads (find_ok hx)

/-- No pointer of a program misses its tree. -/
theorem resolved {h : Hiredis C D W} {t : ReplyHeap H C} {program : List (ReplyStmt H C W)}
    (hrun : run (ReplyHeap.step h) empty program = .ok t) : t.Resolved := by
  have hempty : (empty : ReplyHeap H C).Resolved :=
    ⟨fun x o hx => by simp [empty] at hx, fun p hp => by simp [empty] at hp⟩
  exact run_invariant (fun s stmt s' hs hstep => hs.step hstep) hempty hrun

end Steps

end ReplyHeap

end CloRedis
