import ScxCohort.Daemon.Lemmas.Grammar
import ScxCohort.Lib.Utf8.Spell

/-!
This module contains which names a task can have in the daemon's eyes, and that a rule may ask for
others.
-/

namespace Daemon

open Utf8

variable {name : List Char}

-- Some task of this name is seen under it.
def Nameable (name : List Char) : Prop :=
  ∃ comm : Comm, 0 ∈ comm.toList
    ∧ ∀ prevRuntime pid (ts : TaskStat), ts.comm = comm → (taskSnapshot prevRuntime (pid, ts)).comm = name

-- One byte of the buffer is for the end of the name.
def FitsComm (name : List Char) : Prop := nul ∉ name ∧ (name.map spellLength).sum ≤ 15

instance : Decidable (FitsComm name) := by
  unfold FitsComm
  infer_instance

def commBytes (comm : Comm) : List UInt8 := comm.toList.takeWhile (· ≠ 0)

theorem commOf_eq (comm : Comm) : commOf comm = fromUtf8Lossy (commBytes comm) := rfl

theorem zero_not_mem_commBytes {comm : Comm} : 0 ∉ commBytes comm := by
  intro h
  have hne := List.all_eq_true.mp List.all_takeWhile 0 h
  contradiction

theorem length_commBytes_le {comm : Comm} (h : 0 ∈ comm.toList) : (commBytes comm).length ≤ 15 := by
  have hprefix : commBytes comm <+: comm.toList := List.takeWhile_prefix _
  have hle := hprefix.length_le
  have hlength : comm.toList.length = 16 := comm.length_toList
  by_contra hlt
  have heq : commBytes comm = comm.toList := hprefix.eq_of_length (by omega)
  rw [← heq] at h
  exact zero_not_mem_commBytes h

theorem fitsComm_commOf {comm : Comm} (h : 0 ∈ comm.toList) : FitsComm (commOf comm) := by
  rw [commOf_eq]
  constructor
  . exact nul_not_mem_fromUtf8Lossy zero_not_mem_commBytes
  . exact le_trans sum_spellLength_fromUtf8Lossy_le (length_commBytes_le h)

-- The name in the fewest bytes, and zeros behind it.
def commFor (name : List Char) (h : (name.map spellLength).sum ≤ 15) : Comm :=
  ⟨(name.flatMap spell ++ List.replicate (16 - (name.map spellLength).sum) 0).toArray, by
    rw [List.size_toArray, List.length_append, length_flatMap_spell, List.length_replicate]
    omega⟩

theorem toList_commFor (h : (name.map spellLength).sum ≤ 15)
    : (commFor name h).toList
        =
      name.flatMap spell ++ List.replicate (16 - (name.map spellLength).sum) 0 :=
  rfl

theorem commBytes_commFor (hnul : nul ∉ name) (h : (name.map spellLength).sum ≤ 15)
    : commBytes (commFor name h) = name.flatMap spell := by
  unfold commBytes
  rw [toList_commFor, List.takeWhile_append_of_pos, List.takeWhile_replicate, if_neg (by decide),
    List.append_nil]
  intro b hb
  rw [decide_eq_true_eq]
  intro hzero
  rw [hzero] at hb
  exact zero_not_mem_spell hnul hb

theorem nameable_iff : Nameable name ↔ FitsComm name := by
  constructor
  . intro h
    obtain ⟨comm, hzero, hcomm⟩ := h
    have hname := hcomm ∅ 0 { tgid := 0, cohortId := 0, comm := comm } rfl
    rw [← hname]
    exact fitsComm_commOf hzero
  . intro h
    refine ⟨commFor name h.2, ?_, ?_⟩
    . rw [toList_commFor, List.mem_append, List.mem_replicate]
      have hle := h.2
      exact Or.inr ⟨by omega, rfl⟩
    . intro prevRuntime pid ts hts
      show commOf ts.comm = name
      rw [hts, commOf_eq, commBytes_commFor h.1, fromUtf8Lossy_spell]

end Daemon

namespace Config

open Toml

variable {F : Type} [IntCast F] {glob : List Char → Option (List Char → Bool)} {doc : Document F}

-- Every name that a rule lists is one that a task can have.
def RulesCanMatch (glob : List Char → Option (List Char → Bool)) (doc : Document F) : Prop :=
  ∀ cfg, parse glob doc = .ok cfg
    → ∀ rule ∈ cfg.rules, ∀ names, rule.comms = some names → ∀ name ∈ names, Daemon.Nameable name

-- Every name that the document lists fits, in a table or in an array.
def NamesFit (doc : Document F) : Prop :=
  ∀ v ∈ ruleTables doc.entries, ∀ names : List (List Char),
    get? v "match_comm".toList = some (.array (names.map .string))
    → ∀ name ∈ names, Daemon.FitsComm name

theorem rules_can_match_iff (glob : List Char → Option (List Char → Bool)) (doc : Document F)
    : RulesCanMatch glob doc ↔ ((∃ cfg, parse glob doc = .ok cfg) → NamesFit doc) := by
  constructor
  . intro h hok v hv names hnames name hname
    obtain ⟨cfg, hcfg⟩ := hok
    obtain ⟨rule, hrule, htable⟩ := exists_right (rules_of_parse hcfg) hv
    exact Daemon.nameable_iff.mp (h cfg hcfg rule hrule names ((htable.comms names).mp hnames) name hname)
  . intro h cfg hcfg rule hrule names hnames name hname
    obtain ⟨v, hv, htable⟩ := exists_left (rules_of_parse hcfg) hrule
    exact Daemon.nameable_iff.mpr (h ⟨cfg, hcfg⟩ v hv names ((htable.comms names).mpr hnames) name hname)

-- The names of the sample configuration.
def sample : Document Rat where
  entries := [("rule".toList, .array [.table [("match_comm".toList,
    .array [.string "wineserver".toList, .string "wine64-preloader".toList])]])]
  wellFormed := by decide

theorem sample_cannot_match : ¬ RulesCanMatch (fun _ => none) sample := by
  intro h
  have hnot : ¬ Daemon.Nameable "wine64-preloader".toList := by
    rw [Daemon.nameable_iff]
    decide +kernel
  apply hnot
  refine h _ rfl _ List.mem_cons_self _ rfl _ ?_
  decide

end Config
