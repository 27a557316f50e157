import CloRedis.Redis.Connection

/-!
Runs of a pool of connections: `Get`, any number of `Do` on what is lent, and
`Done`. A call about one lent connection leaves the others alone.
-/

namespace CloRedis

open Library

variable {C D W : Type*}

abbrev ConnectionWorld (C : Type*) := TimedWorld (RedisConnectionImpl C Unit)

inductive LoanCall (D W : Type*) where
  | get (malloc : Bool) (garbage : ErrMsg) (env : ConnectEnv D W)
  | doCommand (block : Block) (command : Command) (wire : W)
  | done (block : Block)

/-- The lent connection a call is about. -/
def LoanCall.block : LoanCall D W → Option Block
  | .get _ _ _ => none
  | .doCommand block _ _ => some block
  | .done block => some block

namespace ConnectionWorld

def step (h : Hiredis C D W) (o : ConnectionPoolOption) (b : Binding) (clock : Clock)
    (w : ConnectionWorld C) : LoanCall D W → Except Fault (ConnectionWorld C)
  | .get malloc garbage env =>
      TimedWorld.step o clock w (.get (RedisConnectionImpl.callEnv h b () malloc garbage env))
  | .doCommand block command wire =>
      TimedWorld.step o clock w (.use block fun conn => conn.doCommand h command wire)
  | .done block =>
      match takeFirst (isBlock block) w.lent with
      | none => .error .notLent
      | some (item, _) =>
          (TimedWorld.step o clock w (.use block fun conn => conn.done.2)).bind fun w =>
            match item.object.pool with
            | none => .ok w
            | some () => TimedWorld.step o clock w (.put block item.object.done.1)

theorem step_get (h : Hiredis C D W) (o : ConnectionPoolOption) (b : Binding) (clock : Clock)
    (w : ConnectionWorld C) (malloc : Bool) (garbage : ErrMsg) (env : ConnectEnv D W) :
    step h o b clock w (.get malloc garbage env) =
      TimedWorld.step o clock w (.get (RedisConnectionImpl.callEnv h b () malloc garbage env)) :=
  rfl

theorem step_doCommand (h : Hiredis C D W) (o : ConnectionPoolOption) (b : Binding)
    (clock : Clock) (w : ConnectionWorld C) (block : Block) (command : Command) (wire : W) :
    step h o b clock w (.doCommand block command wire) =
      TimedWorld.step o clock w (.use block fun conn => conn.doCommand h command wire) :=
  rfl

section Inversion

variable {h : Hiredis C D W} {o : ConnectionPoolOption} {b : Binding} {clock : Clock}
  {w w' : ConnectionWorld C}

theorem step_do {block : Block} {command : Command} {wire : W}
    (hstep : step h o b clock w (.doCommand block command wire) = .ok w') :
    ∃ item rest, takeFirst (isBlock block) w.lent = some (item, rest) ∧
      w' = { w with lent := item.update (fun conn => conn.doCommand h command wire) :: rest } := by
  rw [step_doCommand] at hstep
  exact TimedWorld.step_use hstep

theorem step_done {block : Block} (hstep : step h o b clock w (.done block) = .ok w') :
    ∃ item rest, takeFirst (isBlock block) w.lent = some (item, rest) ∧
      (item.object.pool = none ∧
          w' = { w with lent := item.update (fun conn => conn.done.2) :: rest } ∨
        w' = { pool := w.pool.put o (clock.read w.now) (item.update fun conn => conn.done.2)
                 item.object.done.1,
               lent := rest, now := if item.object.done.1 then w.now + 1 else w.now }) := by
  cases htake : takeFirst (isBlock block) w.lent with
  | none => simp [step, htake] at hstep
  | some r =>
      obtain ⟨item, rest⟩ := r
      refine ⟨item, rest, rfl, ?_⟩
      cases hpool : item.object.pool with
      | none =>
          left
          simp only [step, htake, hpool, TimedWorld.step, Except.bind, Except.ok.injEq] at hstep
          exact ⟨rfl, hstep.symm⟩
      | some self =>
          right
          have hblock : isBlock block (item.update fun conn => conn.done.2) = true :=
            (takeFirst_split htake).1
          simp only [step, htake, hpool, TimedWorld.step, Except.bind, takeFirst, hblock,
            if_true, Except.ok.injEq] at hstep
          exact hstep.symm

theorem step_sound {call : LoanCall D W} (hw : w.Sound)
    (hstep : step h o b clock w call = .ok w') : w'.Sound := by
  cases call with
  | get malloc garbage env =>
      rw [step_get] at hstep
      exact TimedWorld.step_sound hw hstep
  | doCommand block command wire =>
      rw [step_doCommand] at hstep
      exact TimedWorld.step_sound hw hstep
  | done block =>
      cases htake : takeFirst (isBlock block) w.lent with
      | none => simp [step, htake] at hstep
      | some r =>
          simp only [step, htake] at hstep
          obtain ⟨used, huse, hput⟩ := bind_ok.mp hstep
          have hused := TimedWorld.step_sound hw huse
          cases hpool : r.1.object.pool with
          | none =>
              simp only [hpool, Except.ok.injEq] at hput
              rwa [← hput]
          | some self =>
              simp only [hpool] at hput
              exact TimedWorld.step_sound hused hput

theorem run_sound {calls : List (LoanCall D W)} (hw : w.Sound)
    (hrun : run (step h o b clock) w calls = .ok w') : w'.Sound :=
  run_invariant (I := fun w : ConnectionWorld C => w.Sound)
    (fun _ _ _ hs hstep => step_sound hs hstep) hw hrun

/-- Another connection that is lent stays lent, unchanged. -/
theorem step_other {call : LoanCall D W} {item : ListItem (RedisConnectionImpl C Unit)}
    (hother : call.block ≠ some item.block) (hitem : item ∈ w.lent)
    (hstep : step h o b clock w call = .ok w') : item ∈ w'.lent := by
  have hrest : ∀ {block taken rest}, some block ≠ some item.block →
      takeFirst (isBlock block) w.lent = some (taken, rest) → item ∈ rest := by
    intro block taken rest hne htake
    have hblock : taken.block = block := by
      simpa [isBlock] using (takeFirst_split htake).1
    rcases List.mem_cons.mp ((takeFirst_perm htake).subset hitem) with rfl | hmem
    · exact absurd (congrArg some hblock.symm) hne
    · exact hmem
  cases call with
  | get malloc garbage env =>
      cases hstep
      exact List.mem_append_right _ hitem
  | doCommand block command wire =>
      obtain ⟨taken, rest, htake, rfl⟩ := step_do hstep
      exact List.mem_cons_of_mem _ (hrest hother htake)
  | done block =>
      obtain ⟨taken, rest, htake, ⟨_, rfl⟩ | rfl⟩ := step_done hstep
      · exact List.mem_cons_of_mem _ (hrest hother htake)
      · exact hrest hother htake

theorem run_other {calls : List (LoanCall D W)} (item : ListItem (RedisConnectionImpl C Unit))
    (hother : ∀ call ∈ calls, call.block ≠ some item.block) (hitem : item ∈ w.lent)
    (hrun : run (step h o b clock) w calls = .ok w') : item ∈ w'.lent := by
  induction calls generalizing w with
  | nil =>
      cases hrun
      exact hitem
  | cons call calls ih =>
      obtain ⟨next, hstep, hrest⟩ := run_cons_ok.mp hrun
      have hnext := step_other (hother call (List.mem_cons_self ..)) hitem hstep
      exact ih (fun other hmem => hother other (List.mem_cons_of_mem _ hmem)) hnext hrest

/-- What is destroyed stays destroyed. -/
theorem step_destroyed {call : LoanCall D W} (hstep : step h o b clock w call = .ok w') :
    ∃ gone, w'.pool.destroyed = gone ++ w.pool.destroyed := by
  cases call with
  | get malloc garbage env =>
      cases hstep
      exact (ConnectionPool.get_effect _ _ _ _).destroyed
  | doCommand block command wire =>
      obtain ⟨taken, rest, htake, rfl⟩ := step_do hstep
      exact ⟨[], rfl⟩
  | done block =>
      obtain ⟨taken, rest, htake, ⟨_, rfl⟩ | rfl⟩ := step_done hstep
      · exact ⟨[], rfl⟩
      · exact (ConnectionPool.put_effect _ _ _ _ _).destroyed

/-- The lent connection of a block is the one a call about the block gets. -/
theorem taken_eq {block : Block} {item taken : ListItem (RedisConnectionImpl C Unit)}
    {rest : List (ListItem (RedisConnectionImpl C Unit))} (hw : w.Sound) (hitem : item ∈ w.lent)
    (hblock : item.block = block) (htake : takeFirst (isBlock block) w.lent = some (taken, rest)) :
    taken = item := by
  have htaken : taken.block = block := by
    simpa [isBlock] using (takeFirst_split htake).1
  have hmem := (takeFirst_perm htake).symm.subset (List.mem_cons_self ..)
  exact hw.block_unique hmem hitem (htaken.trans hblock.symm)

end Inversion

end ConnectionWorld

end CloRedis
