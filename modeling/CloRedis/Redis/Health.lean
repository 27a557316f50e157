import CloRedis.Redis.Loans

/-!
`Done` decides on reuse from the reply and the error state, never from the
context. The invariant of the runs links the two: whatever hiredis answers, a
connection that would be put back has a context without an error. So the idle
list and `Get` are sound, and a connection whose last `Do` failed is destroyed.
-/

namespace CloRedis

open Library

variable {C D W P : Type*}

namespace RedisConnectionImpl

/-- As a connection stands in the idle list. -/
structure Raw (h : Hiredis C D W) (conn : RedisConnectionImpl C P) : Prop where
  healthy : conn.Healthy h
  reply : conn.reply = none
  state : conn.errState = .ok

/-- As a connection is while it is lent. -/
structure Open (h : Hiredis C D W) (conn : RedisConnectionImpl C P) : Prop where
  linked : conn.Linked h
  context : conn.redisContext.isSome = true

/-- The outcomes of a `Do` that failed: an error in the context, no reply, or
a Redis error reply. -/
def DoFails (h : Hiredis C D W) (conn : RedisConnectionImpl C P) (command : Command) (w : W) :
    Prop :=
  ∀ c ∈ conn.redisContext,
    h.err (h.redisvCommand c command w).2 ≠ 0 ∨ (h.redisvCommand c command w).1 = none ∨
      ∃ tree, (h.redisvCommand c command w).1 = some tree ∧ tree.type = .error

theorem Raw.open {h : Hiredis C D W} {conn : RedisConnectionImpl C P} (hraw : conn.Raw h) :
    conn.Open h := by
  obtain ⟨c, hcontext, herr⟩ := hraw.healthy
  exact ⟨fun _ => hraw.healthy, by rw [hcontext]; rfl⟩

theorem Open.doCommand {h : Hiredis C D W} {conn : RedisConnectionImpl C P} (hopen : conn.Open h)
    (command : Command) (w : W) : (conn.doCommand h command w).Open h := by
  refine ⟨doCommand_linked h conn command w, ?_⟩
  obtain ⟨c, hcontext⟩ := Option.isSome_iff_exists.mp hopen.context
  rw [doCommand_redisContext h conn command w hcontext]
  rfl

/-- `Done` makes raw what it puts back. -/
theorem Open.done {h : Hiredis C D W} {conn : RedisConnectionImpl C P} (hopen : conn.Open h)
    (hreusable : conn.Reusable) : conn.done.2.Raw h :=
  ⟨hopen.linked hreusable, rfl, rfl⟩

theorem DoFails.not_reusable {h : Hiredis C D W} {conn : RedisConnectionImpl C P}
    {command : Command} {w : W} (hfails : conn.DoFails h command w) :
    ¬(conn.doCommand h command w).Reusable := by
  have houtcome := doCommand_outcome h conn command w
  generalize conn.doCommand h command w = conn' at houtcome ⊢
  rw [reusable_iff]
  cases houtcome with
  | noContext _ _ hreply hstate => simp [hreply, hstate]
  | failed c _ _ hreply hstate _ => simp [hreply, hstate]
  | replied c tree hcontext _ hreply hanswer herr =>
      rcases hfails c hcontext with hbad | hnone | ⟨tree', htree, herror⟩
      · exact absurd herr hbad
      · simp [hnone] at hanswer
      · cases htree.symm.trans hanswer
        simp [hreply, herror]

end RedisConnectionImpl

/-- The books of the pool, and the state of its connections. -/
structure ConnectionWorld.Sane (h : Hiredis C D W) (w : ConnectionWorld C) : Prop where
  books : w.Sound
  idle : ∀ item ∈ w.pool.idle, item.object.Raw h ∧ item.object.pool = some ()
  lent : ∀ item ∈ w.lent, item.object.Open h ∧ item.object.pool = some ()

namespace ConnectionWorld.Sane

variable {h : Hiredis C D W} {o : ConnectionPoolOption} {b : Binding} {clock : Clock}
  {w w' : ConnectionWorld C}

theorem new : Sane h ({} : ConnectionWorld C) :=
  ⟨ConnectionPool.Sound.new, by simp, by simp⟩

/-- What `Get` hands out has a context without an error. -/
theorem handed (hw : w.Sane h) (readings : Clock) (malloc : Bool) (garbage : ErrMsg)
    (env : ConnectEnv D W) :
    ∀ item ∈ (w.pool.get o readings
        (RedisConnectionImpl.callEnv h b () malloc garbage env)).item,
      item.object.Healthy h ∧ item.object.Open h ∧ item.object.pool = some () := by
  intro item hitem
  have heffect := ConnectionPool.get_effect o readings
    (RedisConnectionImpl.callEnv h b () malloc garbage env) w.pool
  rcases heffect.item item hitem with hidle | hnew
  · have hraw := hw.idle item hidle
    exact ⟨hraw.1.healthy, hraw.1.open, hraw.2⟩
  · rcases hnew.builds with ⟨hnone, _⟩ | ⟨handler, hhandler, hrun⟩
    · cases hnone
    · cases hhandler
      have haccepts := RedisConnectionImpl.initHandler_accepts rfl hrun
      have hhealthy := haccepts.2 haccepts.1
      have hpool := RedisConnectionImpl.initHandler_pool h b env
        (RedisConnectionImpl.new (some ()) garbage : RedisConnectionImpl C Unit)
      have ⟨c, hcontext, _⟩ := hhealthy
      refine ⟨hhealthy, ⟨haccepts.2, by rw [hcontext]; rfl⟩, ?_⟩
      have hobject : item.object = (RedisConnectionImpl.initHandler h b env
          (RedisConnectionImpl.new (some ()) garbage : RedisConnectionImpl C Unit)).2 :=
        (congrArg Prod.snd hrun).symm
      rw [hobject, hpool]
      rfl

theorem step {call : LoanCall D W} (hw : w.Sane h)
    (hstep : ConnectionWorld.step h o b clock w call = .ok w') : w'.Sane h := by
  have hbooks := step_sound hw.books hstep
  cases call with
  | get malloc garbage env =>
      cases hstep
      refine ⟨hbooks, ?_, ?_⟩
      · intro item hitem
        exact hw.idle item ((ConnectionPool.get_effect _ _ _ _).idle.subset hitem)
      · intro item hitem
        rcases List.mem_append.mp hitem with hgot | hmem
        · exact (hw.handed _ malloc garbage env item (by simpa using hgot)).2
        · exact hw.lent item hmem
  | doCommand block command wire =>
      obtain ⟨taken, rest, htake, rfl⟩ := step_do hstep
      have hperm := takeFirst_perm htake
      refine ⟨hbooks, hw.idle, ?_⟩
      intro item hitem
      rcases List.mem_cons.mp hitem with rfl | hmem
      · have htaken := hw.lent taken (hperm.symm.subset (List.mem_cons_self ..))
        exact ⟨htaken.1.doCommand command wire,
          (RedisConnectionImpl.doCommand_pool h _ command wire).trans htaken.2⟩
      · exact hw.lent item (hperm.symm.subset (List.mem_cons_of_mem _ hmem))
  | done block =>
      obtain ⟨taken, rest, htake, hcases⟩ := step_done hstep
      have hperm := takeFirst_perm htake
      have htaken := hw.lent taken (hperm.symm.subset (List.mem_cons_self ..))
      rcases hcases with ⟨hnone, _⟩ | rfl
      · simp [htaken.2] at hnone
      · refine ⟨hbooks, ?_, ?_⟩
        · intro item hitem
          rcases (ConnectionPool.put_effect o _ _ _ _).idle item hitem with hold | ⟨hok, rfl⟩
          · exact hw.idle item hold
          · exact ⟨htaken.1.done hok, htaken.2⟩
        · intro item hitem
          exact hw.lent item (hperm.symm.subset (List.mem_cons_of_mem _ hitem))

theorem run {calls : List (LoanCall D W)} (hw : w.Sane h)
    (hrun : Library.run (ConnectionWorld.step h o b clock) w calls = .ok w') : w'.Sane h :=
  run_invariant (I := fun w : ConnectionWorld C => w.Sane h)
    (fun _ _ _ hs hstep => hs.step hstep) hw hrun

/-- `Done` on a connection it would not use again destroys it. -/
theorem done_discards {block : Block} {item : ListItem (RedisConnectionImpl C Unit)}
    (hw : w.Sane h) (hitem : item ∈ w.lent) (hblock : item.block = block)
    (hunusable : ¬item.object.Reusable)
    (hstep : ConnectionWorld.step h o b clock w (.done block) = .ok w') :
    w'.pool = w.pool.gc (item.update fun conn => conn.done.2) := by
  obtain ⟨taken, rest, htake, hcases⟩ := step_done hstep
  have htaken := taken_eq hw.books hitem hblock htake
  subst htaken
  rcases hcases with ⟨hnone, _⟩ | rfl
  · simp [(hw.lent taken hitem).2] at hnone
  · have hput : taken.object.done.1 = false := Bool.eq_false_iff.mpr hunusable
    simp only [ConnectionPool.put, hput, Bool.not_false, if_true]

end ConnectionWorld.Sane

namespace ConnectionWorld

variable {h : Hiredis C D W} {o : ConnectionPoolOption} {b : Binding} {clock : Clock}

theorem run_destroyed {calls : List (LoanCall D W)} {w w' : ConnectionWorld C} {serial : Nat}
    (hgone : serial ∈ w.pool.destroyed.map (·.serial))
    (hrun : run (step h o b clock) w calls = .ok w') :
    serial ∈ w'.pool.destroyed.map (·.serial) := by
  refine run_invariant (I := fun w : ConnectionWorld C => serial ∈ w.pool.destroyed.map (·.serial))
    ?_ hgone hrun
  intro w call w' hmem hstep
  obtain ⟨gone, hdestroyed⟩ := step_destroyed hstep
  rw [hdestroyed, List.map_append]
  exact List.mem_append_right _ hmem

/-- In every reachable state the idle connections and those `Get` hands out
are sound. A lent connection whose last `Do` failed, whatever other borrowers
do in between, is not put back by `Done`: it leaves the counter, its context is
freed, and in every later state it has been destroyed once and is nowhere. -/
theorem connections_sound {calls : List (LoanCall D W)} {w : ConnectionWorld C}
    (hrun : run (step h o b clock) {} calls = .ok w) :
    (∀ item ∈ w.pool.idle, item.object.Healthy h ∧ item.object.reply = none ∧
      item.object.errState = .ok) ∧
    (∀ (readings : Clock) (malloc : Bool) (garbage : ErrMsg) (env : ConnectEnv D W),
      ∀ item ∈ (w.pool.get o readings
          (RedisConnectionImpl.callEnv h b () malloc garbage env)).item,
        item.object.Healthy h) ∧
    ∀ (item : ListItem (RedisConnectionImpl C Unit)) (command : Command) (wire : W)
      (others later : List (LoanCall D W)) (failed before after final : ConnectionWorld C),
      item ∈ w.lent → item.object.DoFails h command wire →
      step h o b clock w (.doCommand item.block command wire) = .ok failed →
      (∀ call ∈ others, call.block ≠ some item.block) →
      run (step h o b clock) failed others = .ok before →
      step h o b clock before (.done item.block) = .ok after →
      run (step h o b clock) after later = .ok final →
      after.pool.idle = before.pool.idle ∧
      after.pool.activeCnt = before.pool.activeCnt - 1 ∧
      (∃ gone c, after.pool.destroyed = gone :: before.pool.destroyed ∧
        gone.serial = item.serial ∧ gone.object.freedContext = some c) ∧
      (final.pool.destroyed.map (·.serial)).count item.serial = 1 ∧
      item.serial ∉ final.pool.idle.map (·.serial) ∧
      item.serial ∉ final.lent.map (·.serial) := by
  have hsane : w.Sane h := Sane.new.run hrun
  refine ⟨?_, ?_, ?_⟩
  · intro item hitem
    have hraw := (hsane.idle item hitem).1
    exact ⟨hraw.healthy, hraw.reply, hraw.state⟩
  · intro readings malloc garbage env item hitem
    exact (hsane.handed readings malloc garbage env item hitem).1
  · intro item command wire others later failed before after final hitem hfails hdo hothers
      hmiddle hdone hlater
    obtain ⟨taken, rest, htake, rfl⟩ := step_do hdo
    have htaken := taken_eq hsane.books hitem rfl htake
    subst htaken
    have hbefore := (hsane.step hdo).run hmiddle
    have hlent := run_other (taken.update fun conn => conn.doCommand h command wire) hothers
      (List.mem_cons_self ..) hmiddle
    have hdiscards := hbefore.done_discards hlent rfl hfails.not_reusable hdone
    have hafter := (hbefore.step hdone).run hlater
    obtain ⟨c, hcontext⟩ := Option.isSome_iff_exists.mp (hbefore.lent _ hlent).1.context
    have hgone : taken.serial ∈ after.pool.destroyed.map (·.serial) := by
      rw [hdiscards]
      exact List.mem_cons_self ..
    refine ⟨congrArg (·.idle) hdiscards, congrArg (·.activeCnt) hdiscards, ?_, ?_⟩
    · exact
        ⟨(taken.update fun conn => conn.doCommand h command wire).update fun conn => conn.done.2,
          c, congrArg (·.destroyed) hdiscards, rfl, hcontext⟩
    · exact hafter.books.destroyed_once (run_destroyed hgone hlater)

/-- A hiredis whose contexts are their error; a call says how it ends. -/
def scriptedHiredis : Hiredis Int Unit Bool where
  redisConnectWithTimeout _ _ _ _ := some 0
  redisvCommand c _ ok := if ok then (some { type := .status }, c) else (none, 1)
  err c := c
  errstr _ := "scripted".toList

def blankErrMsg : ErrMsg := ⟨List.replicate redisErrstrLen '\x00', List.length_replicate, 0⟩

theorem connections_sound_of_failed_do :
    ∃ w failed after : ConnectionWorld Int,
      run (step scriptedHiredis {} ⟨"h", 1, "", 0, 0⟩ (stillClock 5000 (by decide))) {}
        [.get true blankErrMsg ⟨(), true, true⟩] = .ok w ∧
      step scriptedHiredis {} ⟨"h", 1, "", 0, 0⟩ (stillClock 5000 (by decide)) w
        (.doCommand 0 (.words ["PING"]) false) = .ok failed ∧
      step scriptedHiredis {} ⟨"h", 1, "", 0, 0⟩ (stillClock 5000 (by decide)) failed
        (.done 0) = .ok after ∧
      after.pool.idle = [] ∧ after.pool.activeCnt = 0 ∧
      (after.pool.destroyed.map (·.serial)).count 0 = 1 :=
  let clock := stillClock 5000 (by decide)
  let b : Binding := ⟨"h", 1, "", 0, 0⟩
  have hrun : run (step scriptedHiredis {} b clock) {}
      [.get true blankErrMsg ⟨(), true, true⟩] = .ok _ := rfl
  have hsound := (connections_sound hrun).2.2 _ (.words ["PING"]) false [] [] _ _ _ _
    (List.mem_cons_self ..) (fun _ _ => Or.inr (Or.inl rfl)) rfl (by simp) rfl rfl rfl
  ⟨_, _, _, hrun, rfl, rfl, hsound.1, hsound.2.1, hsound.2.2.2.1⟩

end ConnectionWorld

end CloRedis
