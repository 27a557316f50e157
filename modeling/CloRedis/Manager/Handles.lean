import CloRedis.Library.Ownership
import CloRedis.Manager.Projection

/-!
`RedisConnection`, the handle that gives its connection back when it is
destroyed. Programs over any number of handles are runs of the operations of
the class on a manager; the handles are named by an arbitrary type.
-/

namespace CloRedis

open Library

variable {C D W H : Type}

/-- The arguments of a `Get` with its surroundings. -/
structure GetCall (D W : Type) where
  db : Fin maxDbNum
  role : RedisRole
  index : Int
  rand : Nat
  env : GetEnv D W

/-- `impl_` of the handles that are alive. -/
structure HandleWorld (H C : Type) where
  world : ManagerWorld C
  impl : H → Option (Option ConnPtr) := fun _ => none

inductive HandleCall (H D W : Type) where
  | construct (x : H) (call : GetCall D W)
  | moveConstruct (x y : H)
  | moveAssign (x y : H)
  | assign (x : H) (call : GetCall D W) (now : Option Timeval)
  | doCommand (x : H) (command : Command) (wire : W)
  | destroy (x : H) (now : Option Timeval)

/-- No program: a handle is used that is not alive, or constructed again. Or a
call on the manager went wrong. -/
inductive HandleError where
  | notAlive
  | alive
  | fault (f : Fault)
  deriving DecidableEq, Repr

namespace HandleWorld

def guarded {α : Type} : Except Fault α → Except HandleError α
  | .ok a => .ok a
  | .error f => .error (.fault f)

def getWith (h : Hiredis C D W) (w : ManagerWorld C) (call : GetCall D W) :
    Except Fault (Option ConnPtr × ManagerWorld C) :=
  w.get h call.db.val call.role call.index call.rand call.env

variable [DecidableEq H]

def step (h : Hiredis C D W) (s : HandleWorld H C) :
    HandleCall H D W → Except HandleError (HandleWorld H C)
  | .construct x call =>
      match s.impl x with
      | some _ => .error .alive
      | none => do
          let (conn, w) ← guarded (getWith h s.world call)
          .ok ⟨w, Function.update s.impl x (some conn)⟩
  | .moveConstruct x y =>
      match s.impl x, s.impl y with
      | some _, _ => .error .alive
      | none, none => .error .notAlive
      | none, some impl =>
          .ok { s with impl := Function.update (Function.update s.impl x (some impl)) y (some none) }
  | .moveAssign x y =>
      match s.impl x, s.impl y with
      | some _, some impl =>
          .ok { s with impl := Function.update (Function.update s.impl x (some impl)) y (some none) }
      | _, _ => .error .notAlive
  | .assign x call now =>
      match s.impl x with
      | none => .error .notAlive
      | some impl => do
          let (conn, w) ← guarded (getWith h s.world call)
          let w ← guarded (w.release now impl)
          .ok ⟨w, Function.update s.impl x (some conn)⟩
  | .doCommand x command wire =>
      match s.impl x with
      | none => .error .notAlive
      -- an empty handle leads to `dummy_conn_impl`
      | some none => .ok s
      | some (some conn) => do
          let w ← guarded (s.world.doCommand h conn command wire)
          .ok { s with world := w }
  | .destroy x now =>
      match s.impl x with
      | none => .error .notAlive
      | some impl => do
          let w ← guarded (s.world.release now impl)
          .ok ⟨w, Function.update s.impl x none⟩

/-- What a handle holds, if it is alive and not empty. -/
def own (s : HandleWorld H C) (x : H) : Option ConnPtr := (s.impl x).join

/-- Every lent connection is held by exactly one handle, and every handle
holds a lent connection or nothing. -/
def Unique (s : HandleWorld H C) : Prop :=
  Library.Owned s.own s.world.Lent

/-- The manager is in use, and the handles do not share. -/
structure Safe (s : HandleWorld H C) : Prop where
  intact : s.world.Intact
  exclusive : Exclusive s.own s.world.Lent

theorem own_update (impl : H → Option (Option ConnPtr)) (w : ManagerWorld C) (x : H)
    (value : Option (Option ConnPtr)) :
    own ⟨w, Function.update impl x value⟩ = Function.update (own ⟨w, impl⟩) x value.join := by
  funext y
  by_cases hy : y = x
  · subst hy
    simp [own]
  · simp [own, Function.update_of_ne hy]

variable {h : Hiredis C D W} {s s' : HandleWorld H C}

/-- A move assignment finds a target that holds nothing. -/
def TargetEmpty (s : HandleWorld H C) : HandleCall H D W → Prop
  | .moveAssign x _ => s.own x = none
  | _ => True

/-- What a step does to the handles: exclusive ownership goes over, and unique
ownership unless a move assignment finds its target holding. -/
structure Kept (s s' : HandleWorld H C) (call : HandleCall H D W) : Prop where
  safe : s'.Safe
  unique : s.Unique → s.TargetEmpty call → s'.Unique
  lost : s'.Unique → s.TargetEmpty call

/-- A call succeeds, or the program is none. -/
inductive Goes (h : Hiredis C D W) (s : HandleWorld H C) (call : HandleCall H D W) : Prop where
  | step (s' : HandleWorld H C) : step h s call = .ok s' → Kept s s' call → Goes h s call
  | notAlive : step h s call = .error .notAlive → Goes h s call
  | alive : step h s call = .error .alive → Goes h s call

omit [DecidableEq H] in
theorem Safe.get (hs : s.Safe) (h : Hiredis C D W) (call : GetCall D W) :
    ∃ found w, getWith h s.world call = .ok (found, w) ∧ w.Intact ∧
      (∀ conn ∈ found, ¬s.world.Lent conn) ∧
      ∀ conn, w.Lent conn ↔ s.world.Lent conn ∨ found = some conn :=
  hs.intact.get_lent h call.db call.role call.index call.rand call.env

omit [DecidableEq H] in
theorem Safe.own_lent (hs : s.Safe) {x : H} : ∀ conn ∈ s.own x, s.world.Lent conn :=
  fun conn hconn => hs.exclusive.held x conn hconn

theorem Safe.construct (hs : s.Safe) (h : Hiredis C D W) (x : H) (call : GetCall D W) :
    Goes h s (.construct x call) := by
  cases hx : s.impl x with
  | some impl => exact .alive (by simp [step, hx])
  | none =>
      obtain ⟨found, w, hget, hw, hfresh, hlent⟩ := hs.get h call
      have hnone : s.own x = none := by simp [own, hx]
      refine .step ⟨w, Function.update s.impl x (some found)⟩
        (by simp only [step, hx, hget, guarded, ok_do])
        ⟨⟨hw, ?_⟩, fun hunique _ => ?_, fun _ => trivial⟩
      · rw [own_update]
        exact hs.exclusive.take hnone hfresh hlent
      · unfold Unique
        rw [own_update]
        exact Owned.take hunique hnone hfresh hlent

theorem Safe.moveConstruct (hs : s.Safe) (h : Hiredis C D W) (x y : H) :
    Goes h s (.moveConstruct x y) := by
  cases hx : s.impl x with
  | some impl => exact .alive (by simp [step, hx])
  | none =>
      cases hy : s.impl y with
      | none => exact .notAlive (by simp [step, hx, hy])
      | some impl =>
          have hnone : s.own x = none := by simp [own, hx]
          have hpassed : impl = s.own y := by simp [own, hy]
          refine .step
            { s with impl := Function.update (Function.update s.impl x (some impl)) y (some none) }
            (by simp only [step, hx, hy])
            ⟨⟨hs.intact, ?_⟩, fun hunique _ => ?_, fun _ => trivial⟩
          · rw [own_update, own_update, hpassed]
            exact hs.exclusive.transfer x y
          · unfold Unique
            rw [own_update, own_update, hpassed]
            exact Owned.transfer hunique hnone y

/-- The target of a move assignment does not give back what it held. -/
theorem Safe.moveAssign (hs : s.Safe) (h : Hiredis C D W) (x y : H) :
    Goes h s (.moveAssign x y) := by
  cases hx : s.impl x with
  | none => exact .notAlive (by simp [step, hx])
  | some old =>
      cases hy : s.impl y with
      | none => exact .notAlive (by simp [step, hx, hy])
      | some impl =>
          have hpassed : impl = s.own y := by simp [own, hy]
          refine .step
            { s with impl := Function.update (Function.update s.impl x (some impl)) y (some none) }
            (by simp only [step, hx, hy])
            ⟨⟨hs.intact, ?_⟩, fun hunique hempty => ?_, fun hunique => ?_⟩
          · rw [own_update, own_update, hpassed]
            exact hs.exclusive.transfer x y
          · unfold Unique
            rw [own_update, own_update, hpassed]
            exact Owned.transfer hunique hempty y
          · unfold Unique at hunique
            rw [own_update, own_update, hpassed] at hunique
            by_contra hheld
            obtain ⟨conn, hconn⟩ := Option.ne_none_iff_exists'.mp hheld
            exact hs.exclusive.transfer_loses hconn hunique

theorem Safe.assign (hs : s.Safe) (h : Hiredis C D W) (x : H) (call : GetCall D W)
    (now : Option Timeval) : Goes h s (.assign x call now) := by
  cases hx : s.impl x with
  | none => exact .notAlive (by simp [step, hx])
  | some impl =>
      have hheld : impl = s.own x := by simp [own, hx]
      obtain ⟨found, w, hget, hw, hfresh, hlent⟩ := hs.get h call
      have hold : ∀ conn ∈ impl, w.Lent conn := by
        intro conn hconn
        rw [hheld] at hconn
        exact (hlent conn).mpr (.inl (hs.own_lent conn hconn))
      obtain ⟨w', hrelease, hw', hlent'⟩ := hw.release_lent hold now
      -- the same as giving back first and then taking the new one
      have hgiven : ∀ conn, s.world.Lent conn ∧ s.own x ≠ some conn ↔
          s.world.Lent conn ∧ s.own x ≠ some conn := fun _ => Iff.rfl
      have hnone : Function.update s.own x none x = none := Function.update_self ..
      have hnew : ∀ conn ∈ found, ¬(s.world.Lent conn ∧ s.own x ≠ some conn) :=
        fun conn hconn hboth => hfresh conn hconn hboth.1
      have hboth : ∀ conn, w'.Lent conn ↔
          (s.world.Lent conn ∧ s.own x ≠ some conn) ∨ found = some conn := by
        intro conn
        rw [hlent', hlent, hheld]
        constructor
        · rintro ⟨hlive | hfound, hne⟩
          · exact Or.inl ⟨hlive, hne⟩
          · exact Or.inr hfound
        · rintro (⟨hlive, hne⟩ | hfound)
          · exact ⟨Or.inl hlive, hne⟩
          · exact ⟨Or.inr hfound, fun hown => hfresh conn hfound (hs.own_lent conn hown)⟩
      refine .step ⟨w', Function.update s.impl x (some found)⟩
        (by simp only [step, hx, hget, guarded, ok_do, hrelease])
        ⟨⟨hw', ?_⟩, fun hunique _ => ?_, fun _ => trivial⟩
      · have htake := (hs.exclusive.give x hgiven).take hnone hnew hboth
        rw [Function.update_idem] at htake
        rw [own_update]
        exact htake
      · have htake := Owned.take (Owned.give hunique x hgiven) hnone hnew hboth
        rw [Function.update_idem] at htake
        unfold Unique
        rw [own_update]
        exact htake

theorem Safe.doCommand (hs : s.Safe) (h : Hiredis C D W) (x : H) (command : Command) (wire : W) :
    Goes h s (.doCommand x command wire) := by
  cases hx : s.impl x with
  | none => exact .notAlive (by simp [step, hx])
  | some impl =>
      cases impl with
      | none =>
          exact .step s (by simp only [step, hx]) ⟨hs, fun hunique _ => hunique, fun _ => trivial⟩
      | some conn =>
          have hheld : s.own x = some conn := by simp [own, hx]
          obtain ⟨w', hdo, hw', hlent⟩ :=
            hs.intact.doCommand_lent (hs.own_lent conn hheld) h command wire
          exact .step { s with world := w' } (by simp only [step, hx, hdo, guarded, ok_do])
            ⟨⟨hw', hs.exclusive.congr hlent⟩, fun hunique _ => Owned.congr hunique hlent,
              fun _ => trivial⟩

theorem Safe.destroy (hs : s.Safe) (h : Hiredis C D W) (x : H) (now : Option Timeval) :
    Goes h s (.destroy x now) := by
  cases hx : s.impl x with
  | none => exact .notAlive (by simp [step, hx])
  | some impl =>
      have hheld : impl = s.own x := by simp [own, hx]
      have hold : ∀ conn ∈ impl, s.world.Lent conn := by
        rw [hheld]
        exact hs.own_lent
      obtain ⟨w', hrelease, hw', hlent⟩ := hs.intact.release_lent hold now
      rw [hheld] at hlent
      refine .step ⟨w', Function.update s.impl x none⟩
        (by simp only [step, hx, hrelease, guarded, ok_do])
        ⟨⟨hw', ?_⟩, fun hunique _ => ?_, fun _ => trivial⟩
      · rw [own_update]
        exact hs.exclusive.give x hlent
      · unfold Unique
        rw [own_update]
        exact Owned.give hunique x hlent

theorem Safe.goes (hs : s.Safe) (h : Hiredis C D W) (call : HandleCall H D W) : Goes h s call := by
  cases call with
  | construct x call => exact hs.construct h x call
  | moveConstruct x y => exact hs.moveConstruct h x y
  | moveAssign x y => exact hs.moveAssign h x y
  | assign x call now => exact hs.assign h x call now
  | doCommand x command wire => exact hs.doCommand h x command wire
  | destroy x now => exact hs.destroy h x now

theorem Safe.kept (hs : s.Safe) {call : HandleCall H D W} (hstep : step h s call = .ok s') :
    Kept s s' call := by
  cases hs.goes h call with
  | step s'' hstep' hkept =>
      cases hstep'.symm.trans hstep
      exact hkept
  | notAlive herror => cases herror.symm.trans hstep
  | alive herror => cases herror.symm.trans hstep

/-- From unique ownership, a program keeps it throughout exactly if no move
assignment of the program finds its target holding. -/
theorem throughout_unique_iff {calls : List (HandleCall H D W)} {t : HandleWorld H C}
    (hs : s.Safe) (hunique : s.Unique) (hrun : run (step h) s calls = .ok t) :
    Throughout (step h) Unique s calls ↔ Along (step h) TargetEmpty s calls := by
  induction calls generalizing s with
  | nil => exact ⟨fun _ => trivial, fun _ => hunique⟩
  | cons call calls ih =>
      obtain ⟨s', hstep, hrest⟩ := run_cons_ok.mp hrun
      have hkept := hs.kept hstep
      constructor
      · rintro ⟨_, hthen⟩
        have htail := hthen s' hstep
        have hnext : s'.Unique := by
          cases calls with
          | nil => exact htail
          | cons _ _ => exact htail.1
        refine ⟨hkept.lost hnext, fun s'' hstep' => ?_⟩
        cases hstep.symm.trans hstep'
        exact (ih hkept.safe hnext hrest).mp htail
      · rintro ⟨hempty, hthen⟩
        have hnext := hkept.unique hunique hempty
        refine ⟨hunique, fun s'' hstep' => ?_⟩
        cases hstep.symm.trans hstep'
        exact (ih hkept.safe hnext hrest).mpr (hthen s' hstep)

/-- No handle yet. -/
def start (w : ManagerWorld C) : HandleWorld H C := ⟨w, fun _ => none⟩

omit [DecidableEq H] in
theorem start_unique {w : ManagerWorld C} {ok : Bool} (hinit : w.Initialised h ok) :
    (start w : HandleWorld H C).Unique := by
  refine ⟨⟨?_, ?_⟩, ?_⟩
  · intro x conn hconn
    cases hconn
  · intro x y conn hconn
    cases hconn
  · intro conn hlent
    exact absurd ((hinit.started.lent conn).mp hlent) id

/-- Handles own their connections throughout a program exactly if every move
assignment finds a target that holds nothing. No program ever gives a
connection back that is not lent; and once such a program has destroyed its
handles, no connection is in use. -/
theorem handles_own_iff {w : ManagerWorld C} {ok : Bool} {calls : List (HandleCall H D W)}
    {t : HandleWorld H C} (hinit : w.Initialised h ok)
    (hrun : run (step h) (start w) calls = .ok t) :
    (Throughout (step h) Unique (start w) calls ↔ Along (step h) TargetEmpty (start w) calls) ∧
      (∀ call f, step h t call ≠ .error (.fault f)) ∧
      (Along (step h) TargetEmpty (start w) calls → (∀ x, t.impl x = none) →
        ∀ role, t.world.connectionInUse role = .ok 0) := by
  have hunique : (start w : HandleWorld H C).Unique := start_unique hinit
  have hsafe : (start w : HandleWorld H C).Safe := ⟨hinit.started.intact, hunique.toExclusive⟩
  have hend : t.Safe := run_invariant (I := Safe) (fun _ _ _ hs hstep => (hs.kept hstep).safe)
    hsafe hrun
  refine ⟨throughout_unique_iff hsafe hunique hrun, ?_, ?_⟩
  · intro call f herror
    cases hend.goes h call with
    | step s' hstep _ => cases hstep.symm.trans herror
    | notAlive hother => cases hother.symm.trans herror
    | alive hother => cases hother.symm.trans herror
  · intro halong hnone role
    have howned : t.Safe ∧ t.Unique :=
      invariant_of_along (I := fun s : HandleWorld H C => s.Safe ∧ s.Unique)
        (fun _ _ _ hs hempty hstep =>
          ⟨(hs.1.kept hstep).safe, (hs.1.kept hstep).unique hs.2 hempty⟩)
        ⟨hsafe, hunique⟩ halong hrun
    apply hend.intact.connectionInUse_zero
    exact Owned.none_live howned.2 fun x => by simp [own, hnone x]

def localCall : GetCall Unit Bool := ⟨defaultDb, .master, 0, 0, ManagerWorld.localGet⟩

/-- Two connections, one handle assigned to the other, both destroyed. -/
def assignOverHeld : List (HandleCall Bool Unit Bool) :=
  [.construct true localCall, .construct false localCall, .moveAssign true false,
    .destroy true none, .destroy false none]

/-- No handle is left, and a connection is in use for ever. -/
theorem moved_over_leaks :
    ∃ t : HandleWorld Bool Int,
      run (step ConnectionWorld.scriptedHiredis) (start ManagerWorld.localManager)
        assignOverHeld = .ok t ∧
      (∀ x, t.impl x = none) ∧ t.world.connectionInUse .master = .ok 1 ∧ ¬t.Unique := by
  have hrun : ∃ t : HandleWorld Bool Int,
      run (step ConnectionWorld.scriptedHiredis) (start ManagerWorld.localManager)
        assignOverHeld = .ok t ∧
      (∀ x, t.impl x = none) ∧ t.world.connectionInUse .master = .ok 1 := by
    simp only [ManagerWorld.localManager, ManagerWorld.localInit, ManagerWorld.init,
      parseAddressVector_localhost]
    exact ⟨_, rfl, by decide, rfl⟩
  obtain ⟨t, hrun, hnone, huse⟩ := hrun
  refine ⟨t, hrun, hnone, huse, fun hunique => ?_⟩
  have hstart := start_unique (H := Bool) ManagerWorld.localManager_initialised
  have hend : t.Safe := run_invariant (I := Safe) (fun _ _ _ hs hstep => (hs.kept hstep).safe)
    ⟨ManagerWorld.localManager_initialised.started.intact, hstart.toExclusive⟩ hrun
  have hzero := hend.intact.connectionInUse_zero
    (Owned.none_live hunique fun x => by simp [own, hnone x]) .master
  cases huse.symm.trans hzero

/-- A connection passed on to a new handle and back by a move assignment, used
by both. -/
def passOn : List (HandleCall Bool Unit Bool) :=
  [.construct true localCall, .moveConstruct false true, .doCommand false (.words ["PING"]) true,
    .moveAssign true false, .doCommand true (.words ["PING"]) true, .destroy false none,
    .destroy true none]

theorem handles_own_of_pass_on :
    ∃ t : HandleWorld Bool Int,
      run (step ConnectionWorld.scriptedHiredis) (start ManagerWorld.localManager) passOn = .ok t ∧
      (Throughout (step ConnectionWorld.scriptedHiredis) Unique (start ManagerWorld.localManager)
          passOn ∧
        t.world.connectionInUse .master = .ok 0) := by
  have hrun : ∃ s t : HandleWorld Bool Int,
      run (step ConnectionWorld.scriptedHiredis) (start ManagerWorld.localManager)
        (passOn.take 3) = .ok s ∧ s.own true = none ∧
      run (step ConnectionWorld.scriptedHiredis) s (passOn.drop 3) = .ok t ∧
      ∀ x, t.impl x = none := by
    simp only [ManagerWorld.localManager, ManagerWorld.localInit, ManagerWorld.init,
      parseAddressVector_localhost]
    exact ⟨_, _, rfl, rfl, rfl, by decide⟩
  obtain ⟨s, t, hfirst, hempty, hrest, hnone⟩ := hrun
  have hrun : run (step ConnectionWorld.scriptedHiredis) (start ManagerWorld.localManager) passOn =
      .ok t := run_append_ok.mpr ⟨s, hfirst, hrest⟩
  -- the first handle is empty when it is assigned to
  obtain ⟨s₁, hconstruct, hfirst⟩ := run_cons_ok.mp hfirst
  obtain ⟨s₂, hmove, hfirst⟩ := run_cons_ok.mp hfirst
  obtain ⟨s₃, hcommand, hfirst⟩ := run_cons_ok.mp hfirst
  cases hfirst
  have halong : Along (step ConnectionWorld.scriptedHiredis) TargetEmpty
      (start ManagerWorld.localManager : HandleWorld Bool Int) passOn :=
    along_cons hconstruct trivial (along_cons hmove trivial (along_cons hcommand trivial
      ⟨hempty, fun _ _ => ⟨trivial, fun _ _ => ⟨trivial, fun _ _ => ⟨trivial, fun _ _ =>
        trivial⟩⟩⟩⟩))
  have hown := handles_own_iff ManagerWorld.localManager_initialised hrun
  exact ⟨t, hrun, hown.1.mpr halong, hown.2.2 halong hnone .master⟩

end HandleWorld

end CloRedis
