import CloRedis.Manager.Setup

/-!
`InitEx` calls the slaves optional, but it sets up the pool of slave 0 and
gets a connection from it whether or not it has stored a slave.
-/

namespace CloRedis

open Library

variable {C D W : Type}

namespace ManagerWorld

variable {h : Hiredis C D W}

/-- A new manager keeps none of the addresses. -/
def StoresNone (C : Type) (slaveHosts : String) : Prop :=
  (({} : ManagerWorld C).addSlaves (parseAddressVector slaveHosts)).slaveAddr = []

/-- The first pool of the master gives a connection. -/
def MasterConnects (h : Hiredis C D W) (cfg : ManagerConfig) (env : GetEnv D W) : Prop :=
  ∃ block, ((cfg.freshPool (.master defaultDb) : PoolCell C).get h ⟨.master defaultDb, 0⟩ env).1 =
    some block

/-- `InitEx` on a new manager stays inside the addresses and the arrays, and
does without slaves when it has none. -/
structure SlavesOptional (h : Hiredis C D W) (masterHost slaveHosts password : String)
    (timeoutMs : Int) (option : Option ConnectionPoolOption) (masterEnv slaveEnv : ProbeEnv D W) :
    Prop where
  inBounds : initEx h ({} : ManagerWorld C) masterHost slaveHosts password timeoutMs option
    masterEnv slaveEnv ≠ .error .outOfBounds
  noSlave : StoresNone C slaveHosts → ∃ r, initEx h ({} : ManagerWorld C) masterHost slaveHosts
      password timeoutMs option masterEnv slaveEnv = .ok r ∧
    (r.ok = true ↔ MasterConnects h r.world.toManagerConfig masterEnv.get) ∧
    (r.ok = true → ∀ (db : Fin maxDbNum) index rand env,
      r.world.get h db.val .slave index rand env = r.world.getSlot h (.master db) env)

theorem storesNone_iff (slaveHosts : String) :
    StoresNone C slaveHosts ↔ ¬(0 < (parseAddressVector slaveHosts).length ∧
      (parseAddressVector slaveHosts).length < maxSlaveCnt) := by
  unfold StoresNone ManagerWorld.addSlaves
  by_cases hlength : 0 < (parseAddressVector slaveHosts).length ∧
      (parseAddressVector slaveHosts).length < maxSlaveCnt
  · rw [if_pos hlength]
    constructor
    · intro hnil
      have hempty : (parseAddressVector slaveHosts).length = 0 := congrArg List.length hnil
      omega
    · exact fun hnot => absurd hlength hnot
  · rw [if_neg hlength]
    exact ⟨fun _ => hlength, fun _ => rfl⟩

/-- Slaves are optional for no list of hosts without one that is accepted. -/
theorem slaves_optional_iff {masterHost : String} {addr : ServiceAddress}
    (hhost : parseAddressVector masterHost = [addr]) (slaveHosts password : String)
    (timeoutMs : Int) (option : Option ConnectionPoolOption) (masterEnv slaveEnv : ProbeEnv D W) :
    SlavesOptional h masterHost slaveHosts password timeoutMs option masterEnv slaveEnv ↔
      0 < (parseAddressVector slaveHosts).length ∧
        (parseAddressVector slaveHosts).length < maxSlaveCnt := by
  constructor
  · intro hoptional
    by_contra hlength
    have hnone : (({} : ManagerWorld C).addSlaves (parseAddressVector slaveHosts)).slaveAddr =
        [] := (storesNone_iff slaveHosts).mpr hlength
    exact hoptional.inBounds
      (initEx_no_slave rfl hhost hnone h password timeoutMs option masterEnv slaveEnv)
  · intro hlength
    have hpos : 0 < (({} : ManagerWorld C).addSlaves (parseAddressVector slaveHosts)).slaveCnt := by
      rw [addSlaves_slaveCnt, if_pos hlength]
      exact hlength.1
    obtain ⟨r, hinit, _⟩ := Tidy.new.initEx_through rfl rfl hhost hpos
      (fun cell hcell => by cases hcell) h password timeoutMs option masterEnv slaveEnv
    refine ⟨?_, ?_⟩
    · rw [hinit]
      exact fun heq => by cases heq
    · intro hnone
      exact absurd hlength ((storesNone_iff slaveHosts).mp hnone)

theorem slaves_optional_of_one :
    parseAddressVector "localhost:6379" = [⟨"localhost", "localhost:6379", 6379⟩] ∧
      SlavesOptional ConnectionWorld.scriptedHiredis "localhost:6379" "localhost:6379" "" 200 none
        ⟨localGet, none⟩ ⟨localGet, none⟩ := by
  refine ⟨parseAddressVector_localhost, ?_⟩
  apply (slaves_optional_iff parseAddressVector_localhost _ _ _ _ _ _).mpr
  rw [parseAddressVector_localhost]
  decide

/-- `InitEx` with no slaves reads past the addresses. -/
theorem slaves_not_optional :
    parseAddressVector "localhost:6379" = [⟨"localhost", "localhost:6379", 6379⟩] ∧
      ¬SlavesOptional ConnectionWorld.scriptedHiredis "localhost:6379" "" "" 200 none
        ⟨localGet, none⟩ ⟨localGet, none⟩ := by
  refine ⟨parseAddressVector_localhost, ?_⟩
  intro hoptional
  apply hoptional.inBounds
  apply initEx_no_slave rfl parseAddressVector_localhost
  rw [parseAddressVector_empty]
  rfl

end ManagerWorld

end CloRedis
