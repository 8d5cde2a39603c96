import ScxCohort.Daemon.Config

/-!
This module contains the grammar of the configuration file as it is documented, and which documents the
parser takes.
-/

open Toml

namespace Config

section Documented

variable {F : Type}

inductive Kind where
  | u64
  | u32
  | i32
  | f64
  | bool
  | string
  | strings

def Kind.admits : Kind → Value F → Prop
  | .u64, .integer i => 0 ≤ i ∧ i < 2 ^ 64
  | .u32, .integer i => 0 ≤ i ∧ i < 2 ^ 32
  | .i32, .integer i => -2 ^ 31 ≤ i ∧ i < 2 ^ 31
  | .f64, .float _ => True
  | .f64, .integer i => -2 ^ 63 ≤ i ∧ i < 2 ^ 64
  | .bool, .boolean _ => True
  | .string, .string _ => True
  | .strings, .array vs => ∀ v ∈ vs, ∃ s, v = .string s
  | _, _ => False

def optionKinds : List (Key × Kind) :=
  [("slice_us".toList, .u64), ("interval_ms".toList, .u64), ("steal_min".toList, .u64),
    ("steal_delay_us".toList, .u64), ("imbalance_pct".toList, .u64), ("residency_ms".toList, .u64),
    ("merge_wakes_per_sec".toList, .f64), ("rt_priority".toList, .i32), ("drop_privs".toList, .bool)]

def ruleKinds : List (Key × Kind) :=
  [("match_comm".toList, .strings), ("match_cgroup".toList, .string), ("join_cohort_of".toList, .string),
    ("pin_ccd".toList, .u32), ("min_ccd_residency_ms".toList, .u64)]

-- Every key is one of these, with a value of its type.
def Typed (kinds : List (Key × Kind)) (entries : List (Key × Value F)) : Prop :=
  ∀ e ∈ entries, ∃ kind, (e.1, kind) ∈ kinds ∧ kind.admits e.2

structure DocumentedRule (glob : List Char → Option (List Char → Bool)) (entries : List (Key × Value F))
    : Prop where
  typed : Typed ruleKinds entries
  parent : ∀ v, ("join_cohort_of".toList, v) ∈ entries → v = .string "parent".toList
  matcher : ∃ e ∈ entries, e.1 = "match_comm".toList ∨ e.1 = "match_cgroup".toList
  glob : ∀ g, ("match_cgroup".toList, .string g) ∈ entries → (glob g).isSome = true

-- `[options]` is a table, and the `[[rule]]`s are an array of tables.
def DocumentedEntry (glob : List Char → Option (List Char → Bool)) (e : Key × Value F) : Prop :=
  e.1 = "options".toList ∧ (∃ entries, e.2 = .table entries ∧ Typed optionKinds entries)
    ∨ e.1 = "rule".toList ∧ ∃ vs, e.2 = .array vs
      ∧ ∀ v ∈ vs, ∃ entries, v = .table entries ∧ DocumentedRule glob entries

def Documented (glob : List Char → Option (List Char → Bool)) (entries : List (Key × Value F)) : Prop :=
  ∀ e ∈ entries, DocumentedEntry glob e

def topKeys : List Key := ["options".toList, "rule".toList]

-- The rules of a document, in order.
def ruleTables (entries : List (Key × Value F)) : List (Value F) :=
  match entries.lookup "rule".toList with
  | some (.array vs) => vs
  | _ => []

-- What a rule has under a key, or in its place in an array.
def get? (v : Value F) (key : Key) : Option (Value F) :=
  match tabled RuleFile.keys v with
  | .table entries => entries.lookup key
  | _ => none

-- A rule says what its table says.
structure SaysRule (glob : List Char → Option (List Char → Bool)) (v : Value F) (r : Rule) : Prop where
  comms : (∀ names, get? v "match_comm".toList = some (.array (names.map .string)) ↔ r.comms = some names)
  cgroup : (∀ matcher, (∃ g, get? v "match_cgroup".toList = some (.string g) ∧ glob g = some matcher)
    ↔ r.cgroup = some matcher)
  pinCcd : (∀ n, get? v "pin_ccd".toList = some (.integer n.toNat) ↔ r.pinCcd = some n)
  minCcdResidencyMs :
    (∀ n, get? v "min_ccd_residency_ms".toList = some (.integer n.toNat) ↔ r.minCcdResidencyMs = some n)

variable [IntCast F]

-- The parser takes a document exactly when it is one of the grammar, and then with its rules.
structure ParsesAsDocumented (glob : List Char → Option (List Char → Bool)) (doc : Document F)
    : Prop where
  accepts : (∃ cfg, parse glob doc = .ok cfg) ↔ Documented glob doc.entries
  rules : ∀ cfg, parse glob doc = .ok cfg → List.Forall₂ (SaysRule glob) (ruleTables doc.entries) cfg.rules

end Documented

section Fields

variable {F : Type} {v : Value F} {entries : List (Key × Value F)}

theorem isSome_asInt_iff {lo hi : Int}
    : (asInt lo hi v).isSome = true ↔ ∃ i, v = .integer i ∧ lo ≤ i ∧ i < hi := by
  cases v with
  | integer i =>
    simp only [asInt, Value.integer.injEq, exists_eq_left']
    split
    . next h => simp [h]
    . next h => simp [h]
  | _ => simp [asInt]

theorem isSome_asU64_iff : (asU64 v).isSome = true ↔ Kind.u64.admits v := by
  unfold asU64
  rw [Option.isSome_map, isSome_asInt_iff]
  cases v <;> simp [Kind.admits]

theorem isSome_asU32_iff : (asU32 v).isSome = true ↔ Kind.u32.admits v := by
  unfold asU32
  rw [Option.isSome_map, isSome_asInt_iff]
  cases v <;> simp [Kind.admits]

theorem isSome_asI32_iff : (asI32 v).isSome = true ↔ Kind.i32.admits v := by
  unfold asI32
  rw [Option.isSome_map, isSome_asInt_iff]
  cases v <;> simp [Kind.admits]

theorem isSome_asF64_iff [IntCast F] : (asF64 v).isSome = true ↔ Kind.f64.admits v := by
  cases v with
  | float x => simp [asF64, Kind.admits]
  | integer i =>
    unfold asF64
    rw [Option.isSome_map, isSome_asInt_iff]
    simp [Kind.admits]
  | _ => simp [asF64, asInt, Kind.admits]

theorem isSome_asBool_iff : (asBool v).isSome = true ↔ Kind.bool.admits v := by
  cases v <;> simp [asBool, Kind.admits]

theorem isSome_asString_iff : (asString v).isSome = true ↔ ∃ s, v = .string s := by
  cases v <;> simp [asString]

theorem string_admits_iff : Kind.string.admits v ↔ ∃ s, v = .string s := by
  cases v <;> simp [Kind.admits]

theorem strings_admits_iff : Kind.strings.admits v ↔ (asArray asString v).isSome = true := by
  rw [isSome_asArray_iff]
  simp only [isSome_asString_iff]
  cases v <;> simp [Kind.admits]

end Fields

section Tables

variable {F : Type} {v : Value F} {entries : List (Key × Value F)}
  {glob : List Char → Option (List Char → Bool)}

theorem typed_iff {kinds : List (Key × Kind)} (h : (kinds.map (·.1)).Nodup)
    : Typed kinds entries
        ↔
      onlyKeys (kinds.map (·.1)) entries = true
        ∧ ∀ k ∈ kinds, ∀ v, (k.1, v) ∈ entries → k.2.admits v := by
  unfold Typed onlyKeys
  simp only [List.all_eq_true, List.contains_iff_mem]
  constructor
  . intro htyped
    constructor
    . intro e he
      obtain ⟨kind, hkind, _⟩ := htyped e he
      exact List.mem_map_of_mem hkind
    . intro k hk v hv
      obtain ⟨kind, hkind, hadmits⟩ := htyped (k.1, v) hv
      have hlookup := (lookup_eq_some_iff h).mpr hkind
      rw [(lookup_eq_some_iff h).mpr hk, Option.some.injEq] at hlookup
      rw [hlookup]
      exact hadmits
  . rintro ⟨hkeys, hadmits⟩ e he
    obtain ⟨k, hk, heq⟩ := List.mem_map.mp (hkeys e he)
    refine ⟨k.2, ?_, ?_⟩
    . rw [← heq]
      exact hk
    . apply hadmits k hk
      rw [heq]
      exact he

theorem isSome_bind_iff {α β : Type} {x : Option α} {f : α → Option β}
    : (x >>= f).isSome = true ↔ ∃ a, x = some a ∧ (f a).isSome = true := by
  cases x <;> simp

theorem nodup_of_tabled {keys : List Key} (hkeys : keys.Nodup) (h : v.wellFormed = true)
    (htabled : tabled keys v = .table entries)
    : (entries.map (·.1)).Nodup := by
  have hwell := wellFormed_tabled hkeys h
  rw [htabled] at hwell
  exact nodup_of_wellFormed hwell

theorem isSome_options_iff [IntCast F] (h : v.wellFormed = true)
    : (OptionsTable.deserialize v).isSome = true
        ↔
      ∃ entries, tabled OptionsTable.keys v = .table entries ∧ Typed optionKinds entries := by
  unfold OptionsTable.deserialize
  rw [isSome_bind_iff]
  apply exists_congr
  intro entries
  rw [fields_eq_some_iff, and_assoc]
  apply and_congr_right
  intro htabled
  have hnodup := nodup_of_tabled (by decide) h htabled
  have hkinds : (optionKinds.map (·.1)).Nodup := by decide
  rw [typed_iff hkinds]
  apply and_congr_right
  intro _
  simp only [isSome_bind_iff, exists_and_right, ← Option.isSome_iff_exists, Option.isSome_some,
    Option.pure_def, and_true, isSome_field_iff hnodup]
  simp only [isSome_asU64_iff, isSome_asF64_iff, isSome_asI32_iff, isSome_asBool_iff]
  simp only [optionKinds, List.forall_mem_cons, List.not_mem_nil, IsEmpty.forall_iff, implies_true,
    and_true]

theorem isSome_rule_iff (h : v.wellFormed = true)
    : (RuleFile.deserialize v).isSome = true
        ↔
      ∃ entries, tabled RuleFile.keys v = .table entries ∧ Typed ruleKinds entries := by
  unfold RuleFile.deserialize
  rw [isSome_bind_iff]
  apply exists_congr
  intro entries
  rw [fields_eq_some_iff, and_assoc]
  apply and_congr_right
  intro htabled
  have hnodup := nodup_of_tabled (by decide) h htabled
  have hkinds : (ruleKinds.map (·.1)).Nodup := by decide
  rw [typed_iff hkinds]
  apply and_congr_right
  intro _
  simp only [isSome_bind_iff, exists_and_right, ← Option.isSome_iff_exists, Option.isSome_some,
    Option.pure_def, and_true, isSome_field_iff hnodup]
  simp only [isSome_asU64_iff, isSome_asU32_iff, isSome_asString_iff, ← string_admits_iff,
    ← strings_admits_iff]
  simp only [ruleKinds, List.forall_mem_cons, List.not_mem_nil, IsEmpty.forall_iff, implies_true,
    and_true]

end Tables

section Rules

variable {F : Type} {v : Value F} {entries : List (Key × Value F)}
  {glob : List Char → Option (List Char → Bool)} {i : Nat} {r : RuleFile} {rule : Rule}

-- The fields of a rule are what its table holds.
structure Reads (v : Value F) (r : RuleFile) : Prop where
  matchComm : r.matchComm = (get? v "match_comm".toList).bind (asArray asString)
  matchCgroup : r.matchCgroup = (get? v "match_cgroup".toList).bind asString
  joinCohortOf : r.joinCohortOf = (get? v "join_cohort_of".toList).bind asString
  pinCcd : r.pinCcd = (get? v "pin_ccd".toList).bind asU32
  minCcdResidencyMs : r.minCcdResidencyMs = (get? v "min_ccd_residency_ms".toList).bind asU64

theorem reads_of_deserialize (h : RuleFile.deserialize v = some r) : Reads v r := by
  unfold RuleFile.deserialize at h
  simp only [Option.bind_eq_bind, Option.bind_eq_some_iff, Option.pure_def, Option.some.injEq,
    fields_eq_some_iff] at h
  obtain ⟨entries, ⟨htabled, _⟩, comm, hcomm, cgroup, hcgroup, join, hjoin, pin, hpin, ms, hms, rfl⟩ := h
  have hget : ∀ key, get? v key = entries.lookup key := by
    intro key
    unfold get?
    rw [htabled]
  constructor
  . rw [hget]
    exact eq_of_field hcomm
  . rw [hget]
    exact eq_of_field hcgroup
  . rw [hget]
    exact eq_of_field hjoin
  . rw [hget]
    exact eq_of_field hpin
  . rw [hget]
    exact eq_of_field hms

-- The checks that `parse` makes itself.
structure Compiles (glob : List Char → Option (List Char → Bool)) (r : RuleFile) : Prop where
  parent : ∀ j, r.joinCohortOf = some j → j = "parent".toList
  matcher : r.matchComm.isSome = true ∨ r.matchCgroup.isSome = true
  glob : ∀ g, r.matchCgroup = some g → (glob g).isSome = true

structure Compiled (glob : List Char → Option (List Char → Bool)) (r : RuleFile) (rule : Rule)
    : Prop where
  comms : rule.comms = r.matchComm
  cgroup : rule.cgroup = r.matchCgroup.bind glob
  pinCcd : rule.pinCcd = r.pinCcd
  minCcdResidencyMs : rule.minCcdResidencyMs = r.minCcdResidencyMs

theorem compileRule_ok (h : compileRule glob i r = .ok rule)
    : Compiles glob r ∧ Compiled glob r rule := by
  unfold compileRule at h
  split at h
  . contradiction
  . next hparent =>
    have hjoin : ∀ j, r.joinCohortOf = some j → j = "parent".toList := by
      intro j hj
      rw [hj, Option.any_some, decide_eq_true_eq] at hparent
      exact not_not.mp hparent
    split at h
    . contradiction
    . next hmatcher =>
      have hsome : r.matchComm.isSome = true ∨ r.matchCgroup.isSome = true := by
        cases hcomm : r.matchComm with
        | some names => exact .inl rfl
        | none =>
          rw [hcomm] at hmatcher
          right
          rw [Option.isSome_iff_ne_none]
          simpa using hmatcher
      split at h
      . next hnone =>
        simp only [Except.ok.injEq] at h
        rw [← h]
        exact ⟨⟨hjoin, hsome, by simp [hnone]⟩, ⟨rfl, by simp [hnone], rfl, rfl⟩⟩
      . next g hg =>
        split at h
        . contradiction
        . next matcher hglob =>
          simp only [Except.ok.injEq] at h
          rw [← h]
          exact ⟨⟨hjoin, hsome, by simp [hg, hglob]⟩, ⟨rfl, by simp [hg, hglob], rfl, rfl⟩⟩

theorem compileRule_of_compiles (h : Compiles glob r) : ∃ rule, compileRule glob i r = .ok rule := by
  unfold compileRule
  rw [if_neg, if_neg]
  . split
    . exact ⟨_, rfl⟩
    . next g hg =>
      obtain ⟨matcher, hmatcher⟩ := Option.isSome_iff_exists.mp (h.glob g hg)
      rw [hmatcher]
      exact ⟨_, rfl⟩
  . rw [Bool.and_eq_true, Option.isNone_iff_eq_none, Option.isNone_iff_eq_none]
    intro hnone
    cases h.matcher with
    | inl hcomm => simp [hnone.1] at hcomm
    | inr hcgroup => simp [hnone.2] at hcgroup
  . cases hjoin : r.joinCohortOf with
    | none => exact Bool.false_ne_true
    | some j =>
      rw [Option.any_some, decide_eq_true_eq, not_not]
      exact h.parent j hjoin

theorem compileRules_ok {rs : List RuleFile} {rules : List Rule} (h : compileRules glob i rs = .ok rules)
    : (∀ r ∈ rs, Compiles glob r) ∧ List.Forall₂ (Compiled glob) rs rules := by
  induction rs generalizing i rules with
  | nil =>
    simp only [compileRules, Except.ok.injEq] at h
    rw [← h]
    exact ⟨by simp, .nil⟩
  | cons r rs ih =>
    unfold compileRules at h
    cases hrule : compileRule glob i r with
    | error e =>
      rw [hrule] at h
      contradiction
    | ok rule =>
      cases hrules : compileRules glob (i + 1) rs with
      | error e =>
        rw [hrule, hrules] at h
        contradiction
      | ok rest =>
        rw [hrule, hrules] at h
        obtain rfl := Except.ok.inj h
        obtain ⟨hchecks, hcompiled⟩ := compileRule_ok hrule
        obtain ⟨hall, hrest⟩ := ih hrules
        exact ⟨List.forall_mem_cons.mpr ⟨hchecks, hall⟩, .cons hcompiled hrest⟩

theorem compileRules_of_compiles {rs : List RuleFile} (h : ∀ r ∈ rs, Compiles glob r)
    : ∃ rules, compileRules glob i rs = .ok rules := by
  induction rs generalizing i with
  | nil => exact ⟨[], rfl⟩
  | cons r rs ih =>
    rw [List.forall_mem_cons] at h
    obtain ⟨rule, hrule⟩ := compileRule_of_compiles (i := i) h.1
    obtain ⟨rules, hrules⟩ := ih (i := i + 1) h.2
    unfold compileRules
    rw [hrule, hrules]
    exact ⟨_, rfl⟩

theorem says_of_compiled (hreads : Reads v r) (hcompiled : Compiled glob r rule)
    : SaysRule glob v rule := by
  constructor
  . intro names
    rw [hcompiled.comms, hreads.matchComm, Option.bind_eq_some_iff]
    simp only [asArray_asString_eq_some_iff, exists_eq_right]
  . intro matcher
    rw [hcompiled.cgroup, hreads.matchCgroup, Option.bind_eq_some_iff]
    simp only [Option.bind_eq_some_iff, asString_eq_some_iff, exists_eq_right]
  . intro n
    rw [hcompiled.pinCcd, hreads.pinCcd, Option.bind_eq_some_iff]
    simp only [asU32_eq_some_iff, exists_eq_right]
  . intro n
    rw [hcompiled.minCcdResidencyMs, hreads.minCcdResidencyMs, Option.bind_eq_some_iff]
    simp only [asU64_eq_some_iff, exists_eq_right]

theorem Typed.admits {kinds : List (Key × Kind)} {key : Key} {kind : Kind} (h : Typed kinds entries)
    (hkinds : (kinds.map (·.1)).Nodup) (hkind : (key, kind) ∈ kinds) (hv : (key, v) ∈ entries)
    : kind.admits v :=
  ((typed_iff hkinds).mp h).2 (key, kind) hkind v hv

theorem documentedRule_iff (h : v.wellFormed = true) (htabled : tabled RuleFile.keys v = .table entries)
    : DocumentedRule glob entries ↔ ∃ r, RuleFile.deserialize v = some r ∧ Compiles glob r := by
  have hkinds : (ruleKinds.map (·.1)).Nodup := by decide
  have hnodup := nodup_of_tabled (by decide) h htabled
  have htyped : (RuleFile.deserialize v).isSome = true ↔ Typed ruleKinds entries := by
    rw [isSome_rule_iff h]
    simp [htabled]
  have hget : ∀ key, get? v key = entries.lookup key := by
    intro key
    unfold get?
    rw [htabled]
  constructor
  . intro hrule
    obtain ⟨r, hr⟩ := Option.isSome_iff_exists.mp (htyped.mpr hrule.typed)
    have hreads := reads_of_deserialize hr
    refine ⟨r, hr, ?_, ?_, ?_⟩
    . intro j hj
      rw [hreads.joinCohortOf, hget, Option.bind_eq_some_iff] at hj
      obtain ⟨v, hv, hstring⟩ := hj
      have hparent := hrule.parent v ((lookup_eq_some_iff hnodup).mp hv)
      rw [asString_eq_some_iff.mp hstring, Value.string.injEq] at hparent
      exact hparent
    . obtain ⟨e, he, hkey⟩ := hrule.matcher
      have hlookup : entries.lookup e.1 = some e.2 := (lookup_eq_some_iff hnodup).mpr he
      cases hkey with
      | inl hcomm =>
        left
        rw [hcomm] at hlookup
        have hkind : (e.1, Kind.strings) ∈ ruleKinds := by simp [ruleKinds, hcomm]
        have hadmits : Kind.strings.admits e.2 := hrule.typed.admits hkinds hkind he
        rw [hreads.matchComm, hget, hlookup]
        exact strings_admits_iff.mp hadmits
      | inr hcgroup =>
        right
        rw [hcgroup] at hlookup
        have hkind : (e.1, Kind.string) ∈ ruleKinds := by simp [ruleKinds, hcgroup]
        have hadmits : Kind.string.admits e.2 := hrule.typed.admits hkinds hkind he
        rw [hreads.matchCgroup, hget, hlookup]
        exact isSome_asString_iff.mpr (string_admits_iff.mp hadmits)
    . intro g hg
      rw [hreads.matchCgroup, hget, Option.bind_eq_some_iff] at hg
      obtain ⟨v, hv, hstring⟩ := hg
      apply hrule.glob
      rw [← asString_eq_some_iff.mp hstring]
      exact (lookup_eq_some_iff hnodup).mp hv
  . rintro ⟨r, hr, hcompiles⟩
    have hreads := reads_of_deserialize hr
    have hrule := htyped.mp (Option.isSome_iff_exists.mpr ⟨r, hr⟩)
    refine ⟨hrule, ?_, ?_, ?_⟩
    . intro v hv
      have hkind : ("join_cohort_of".toList, Kind.string) ∈ ruleKinds := by simp [ruleKinds]
      have hadmits : Kind.string.admits v := hrule.admits hkinds hkind hv
      obtain ⟨j, rfl⟩ := string_admits_iff.mp hadmits
      have hlookup : entries.lookup "join_cohort_of".toList = some (.string j) :=
        (lookup_eq_some_iff hnodup).mpr hv
      have hjoin := hreads.joinCohortOf
      rw [hget, hlookup] at hjoin
      rw [hcompiles.parent j hjoin]
    . have hsome := hcompiles.matcher
      rw [hreads.matchComm, hreads.matchCgroup, hget, hget] at hsome
      have hentry : ∀ {α : Type} {as : Value F → Option α} {key : Key},
          ((entries.lookup key).bind as).isSome = true → ∃ e ∈ entries, e.1 = key := by
        intro α as key hsome
        obtain ⟨a, ha⟩ := Option.isSome_iff_exists.mp hsome
        obtain ⟨v, hv, _⟩ := Option.bind_eq_some_iff.mp ha
        exact ⟨(key, v), (lookup_eq_some_iff hnodup).mp hv, rfl⟩
      cases hsome with
      | inl hcomm =>
        obtain ⟨e, he, heq⟩ := hentry hcomm
        exact ⟨e, he, .inl heq⟩
      | inr hcgroup =>
        obtain ⟨e, he, heq⟩ := hentry hcgroup
        exact ⟨e, he, .inr heq⟩
    . intro g hg
      apply hcompiles.glob
      rw [hreads.matchCgroup, hget, (lookup_eq_some_iff hnodup).mpr hg]
      rfl

end Rules

section Known

variable {F : Type} {entries : List (Key × Value F)} {glob : List Char → Option (List Char → Bool)}

theorem options_ne_rule : "options".toList ≠ "rule".toList := by decide

-- What is left of a document without the keys that are not documented.
def knownEntries (entries : List (Key × Value F)) : List (Key × Value F) :=
  entries.filter fun e => topKeys.contains e.1

def eachTabled (v : Value F) : Value F :=
  match v with
  | .array vs => .array (vs.map (tabled RuleFile.keys))
  | v => v

def readEntry (e : Key × Value F) : Key × Value F :=
  if e.1 = "options".toList then
    (e.1, tabled OptionsTable.keys e.2)
  else
    (e.1, eachTabled e.2)

-- What the parser makes of a document: keys that it does not know are dropped, and records in arrays are
-- read like the tables that they stand for.
def readEntries (entries : List (Key × Value F)) : List (Key × Value F) :=
  (knownEntries entries).map readEntry

-- Only keys that are documented at the top level, and only tables for `[options]` and the `[[rule]]`s.
structure Plain (entries : List (Key × Value F)) : Prop where
  keys : ∀ e ∈ entries, e.1 ∈ topKeys
  options : ∀ vs, ("options".toList, .array vs) ∉ entries
  rules : ∀ vs, ("rule".toList, .array vs) ∈ entries → ∀ us, .array us ∉ vs

theorem readEntry_options {key : Key} (h : key = "options".toList) (v : Value F)
    : readEntry (key, v) = (key, tabled OptionsTable.keys v) := by
  unfold readEntry
  exact if_pos h

theorem readEntry_rule {key : Key} (h : key = "rule".toList) (v : Value F)
    : readEntry (key, v) = (key, eachTabled v) := by
  have hne : key ≠ "options".toList := by
    rw [h]
    exact options_ne_rule.symm
  unfold readEntry
  exact if_neg hne

theorem eachTabled_eq_array {v : Value F} {us : List (Value F)} (h : eachTabled v = .array us)
    : ∃ vs, v = .array vs ∧ us = vs.map (tabled RuleFile.keys) := by
  cases v with
  | array vs => exact ⟨vs, rfl, (Value.array.inj h).symm⟩
  | _ => simp [eachTabled] at h

theorem tabled_of_not_array {keys : List Key} {v : Value F} (h : ∀ vs, v ≠ .array vs)
    : tabled keys v = v := by
  cases v with
  | array vs => exact absurd rfl (h vs)
  | _ => rfl

theorem Plain.read (h : Plain entries) : readEntries entries = entries := by
  have hknown : knownEntries entries = entries := by
    unfold knownEntries
    rw [List.filter_eq_self]
    intro e he
    exact List.contains_iff_mem.mpr (h.keys e he)
  unfold readEntries
  rw [hknown]
  conv_rhs => rw [← List.map_id entries]
  apply List.map_congr_left
  rintro ⟨key, v⟩ he
  rw [id_eq]
  have hkey := h.keys _ he
  rw [topKeys, List.mem_cons, List.mem_singleton] at hkey
  cases hkey with
  | inl hoptions =>
    obtain rfl : key = "options".toList := hoptions
    rw [readEntry_options rfl, tabled_of_not_array]
    rintro vs rfl
    exact h.options vs he
  | inr hrule =>
    obtain rfl : key = "rule".toList := hrule
    rw [readEntry_rule rfl]
    cases v with
    | array vs =>
      have hsame : vs.map (tabled RuleFile.keys) = vs := by
        conv_rhs => rw [← List.map_id vs]
        apply List.map_congr_left
        intro u hu
        rw [id_eq]
        apply tabled_of_not_array
        rintro us rfl
        exact h.rules vs he us hu
      rw [eachTabled, hsame]
    | _ => rfl

theorem Documented.plain (h : Documented glob entries) : Plain entries := by
  constructor
  . intro e he
    cases h e he with
    | inl hoptions => simp [topKeys, hoptions.1]
    | inr hrule => simp [topKeys, hrule.1]
  . intro vs hvs
    cases h _ hvs with
    | inl hoptions =>
      obtain ⟨_, table, heq, _⟩ := hoptions
      contradiction
    | inr hrule => exact options_ne_rule hrule.1
  . intro vs hvs us hus
    cases h _ hvs with
    | inl hoptions => exact options_ne_rule hoptions.1.symm
    | inr hrule =>
      obtain ⟨_, vs', heq, hall⟩ := hrule
      obtain rfl := Value.array.inj heq
      obtain ⟨table, heq', _⟩ := hall _ hus
      contradiction

end Known

section Parse

variable {F : Type} [IntCast F] {doc : Document F} {entries : List (Key × Value F)}
  {glob : List Char → Option (List Char → Bool)} {cfg : FileConfig F} {file : ConfigFile F}

theorem parse_eq_ok_iff
    : parse glob doc = .ok cfg
        ↔
      ∃ file rules, ConfigFile.deserialize doc.entries = some file
        ∧ compileRules glob 0 file.rules = .ok rules
        ∧ cfg = { rules := rules, options := file.options } := by
  unfold parse
  cases hfile : ConfigFile.deserialize doc.entries with
  | none =>
    simp only [reduceCtorEq, false_and, exists_false, iff_false]
    intro h
    contradiction
  | some file =>
    cases hrules : compileRules glob 0 file.rules with
    | error e =>
      constructor
      . intro h
        rw [Option.elim_some] at h
        change (compileRules glob 0 file.rules >>= _) = _ at h
        rw [hrules] at h
        contradiction
      . rintro ⟨file', rules, hfile', hrules', _⟩
        obtain rfl := Option.some.inj hfile'
        rw [hrules] at hrules'
        contradiction
    | ok rules =>
      constructor
      . intro h
        rw [Option.elim_some] at h
        change (compileRules glob 0 file.rules >>= _) = _ at h
        rw [hrules] at h
        exact ⟨file, rules, rfl, hrules, (Except.ok.inj h).symm⟩
      . rintro ⟨file', rules', hfile', hrules', rfl⟩
        obtain rfl := Option.some.inj hfile'
        rw [hrules, Except.ok.injEq] at hrules'
        rw [Option.elim_some]
        change (compileRules glob 0 file.rules >>= _) = _
        rw [hrules, hrules']
        rfl

-- The rules of the file are those of the document, one by one.
theorem rules_of_deserialize (h : ConfigFile.deserialize entries = some file)
    : List.Forall₂ (fun v r => RuleFile.deserialize v = some r) (ruleTables entries) file.rules := by
  unfold ConfigFile.deserialize at h
  simp only [Option.bind_eq_bind, Option.bind_eq_some_iff, Option.pure_def, Option.some.injEq] at h
  obtain ⟨options, _, rules, hrules, rfl⟩ := h
  rw [eq_of_field hrules]
  unfold ruleTables
  cases hlookup : entries.lookup "rule".toList with
  | none => exact .nil
  | some v =>
    have hsome := eq_of_field hrules
    rw [hlookup, Option.bind_some] at hsome
    rw [field, hlookup] at hrules
    obtain ⟨rs, hrs, _⟩ := Option.map_eq_some_iff.mp hrules
    dsimp only
    rw [Option.bind_some, hrs, Option.getD_some]
    cases v with
    | array vs => exact mapM_eq_some_iff.mp hrs
    | _ => simp [asArray] at hrs

theorem isSome_deserialize_iff (h : (entries.map (·.1)).Nodup)
    : (ConfigFile.deserialize (F := F) entries).isSome = true
        ↔
      (∀ v, ("options".toList, v) ∈ entries → (OptionsTable.deserialize v).isSome = true)
        ∧ ∀ v, ("rule".toList, v) ∈ entries → (asArray RuleFile.deserialize v).isSome = true := by
  unfold ConfigFile.deserialize
  simp only [isSome_bind_iff, exists_and_right, ← Option.isSome_iff_exists, Option.isSome_some,
    Option.pure_def, and_true, isSome_field_iff h]

theorem accepts_iff
    : (∃ cfg, parse glob doc = .ok cfg) ↔ Documented glob (readEntries doc.entries) := by
  have hnodup := nodup_of_wellFormed doc.wellFormed
  have hwell : ∀ {key v}, (key, v) ∈ doc.entries → v.wellFormed = true := by
    intro key v hv
    exact wellFormed_of_entry (entries_of_wellFormed doc.wellFormed) hv
  have helem : ∀ {key vs}, (key, .array vs) ∈ doc.entries → ∀ v ∈ vs, v.wellFormed = true := by
    intro key vs hvs v hv
    exact wellFormed_of_mem (hwell hvs) hv
  constructor
  . rintro ⟨cfg, hcfg⟩ e' he'
    obtain ⟨⟨key, v⟩, he, rfl⟩ := List.mem_map.mp he'
    obtain ⟨file, rules, hfile, hrules, _⟩ := parse_eq_ok_iff.mp hcfg
    obtain ⟨hoptions, hrule⟩ :=
      (isSome_deserialize_iff hnodup).mp (Option.isSome_iff_exists.mpr ⟨file, hfile⟩)
    obtain ⟨hmem, hkey⟩ := List.mem_filter.mp he
    rw [List.contains_iff_mem, topKeys, List.mem_cons, List.mem_singleton] at hkey
    cases hkey with
    | inl hkey =>
      obtain rfl : key = "options".toList := hkey
      rw [readEntry_options rfl]
      exact .inl ⟨rfl, (isSome_options_iff (hwell hmem)).mp (hoptions v hmem)⟩
    | inr hkey =>
      obtain rfl : key = "rule".toList := hkey
      obtain ⟨vs, rfl, hvs⟩ := isSome_asArray_iff.mp (hrule v hmem)
      rw [readEntry_rule rfl]
      refine .inr ⟨rfl, _, rfl, ?_⟩
      intro u' hu'
      obtain ⟨u, hu, rfl⟩ := List.mem_map.mp hu'
      obtain ⟨table, htable, _⟩ := (isSome_rule_iff (helem hmem u hu)).mp (hvs u hu)
      refine ⟨table, htable, (documentedRule_iff (helem hmem _ hu) htable).mpr ?_⟩
      have htables : ruleTables doc.entries = vs := by
        rw [ruleTables, (lookup_eq_some_iff hnodup).mpr hmem]
      have hall := rules_of_deserialize hfile
      rw [htables] at hall
      obtain ⟨r, hr, hdeserialize⟩ := exists_right hall hu
      exact ⟨r, hdeserialize, (compileRules_ok hrules).1 r hr⟩
  . intro hdoc
    have hentry : ∀ {key v}, (key, v) ∈ doc.entries → key ∈ topKeys
        → DocumentedEntry glob (readEntry (key, v)) := by
      intro key v hv hkey
      exact hdoc _ (List.mem_map_of_mem (List.mem_filter.mpr ⟨hv, List.contains_iff_mem.mpr hkey⟩))
    have hoptions : ∀ {v}, ("options".toList, v) ∈ doc.entries
        → ∃ table, tabled OptionsTable.keys v = .table table ∧ Typed optionKinds table := by
      intro v hv
      have h := hentry hv (by simp [topKeys])
      rw [readEntry_options rfl] at h
      cases h with
      | inl hoptions => exact hoptions.2
      | inr hrule => exact absurd hrule.1 options_ne_rule
    have hrule : ∀ {v}, ("rule".toList, v) ∈ doc.entries → ∃ vs, v = .array vs
        ∧ ∀ u ∈ vs, ∃ table, tabled RuleFile.keys u = .table table ∧ DocumentedRule glob table := by
      intro v hv
      have h := hentry hv (by simp [topKeys])
      rw [readEntry_rule rfl] at h
      cases h with
      | inl hoptions => exact absurd hoptions.1 options_ne_rule.symm
      | inr hrule =>
        obtain ⟨_, us, heq, hall⟩ := hrule
        obtain ⟨vs, rfl, rfl⟩ := eachTabled_eq_array heq
        refine ⟨vs, rfl, ?_⟩
        intro u hu
        exact hall _ (List.mem_map_of_mem hu)
    have hfile : (ConfigFile.deserialize (F := F) doc.entries).isSome = true := by
      rw [isSome_deserialize_iff hnodup]
      constructor
      . intro v hv
        exact (isSome_options_iff (hwell hv)).mpr (hoptions hv)
      . intro v hv
        obtain ⟨vs, rfl, hvs⟩ := hrule hv
        refine isSome_asArray_iff.mpr ⟨vs, rfl, ?_⟩
        intro u hu
        obtain ⟨table, htable, hdocumented⟩ := hvs u hu
        exact (isSome_rule_iff (helem hv _ hu)).mpr ⟨table, htable, hdocumented.typed⟩
    obtain ⟨file, hfile⟩ := Option.isSome_iff_exists.mp hfile
    have hcompiles : ∀ r ∈ file.rules, Compiles glob r := by
      intro r hr
      obtain ⟨u, hu, hdeserialize⟩ := exists_left (rules_of_deserialize hfile) hr
      unfold ruleTables at hu
      split at hu
      . next vs hlookup =>
        have hmem := (lookup_eq_some_iff hnodup).mp hlookup
        obtain ⟨vs', heq, hvs⟩ := hrule hmem
        obtain rfl := Value.array.inj heq
        obtain ⟨table, htable, hdocumented⟩ := hvs u hu
        obtain ⟨r', hr', hcompiles⟩ := (documentedRule_iff (helem hmem _ hu) htable).mp hdocumented
        rw [hdeserialize, Option.some.injEq] at hr'
        rw [hr']
        exact hcompiles
      . contradiction
    obtain ⟨rules, hrules⟩ := compileRules_of_compiles (i := 0) hcompiles
    exact ⟨_, parse_eq_ok_iff.mpr ⟨file, rules, hfile, hrules, rfl⟩⟩

theorem rules_of_parse (h : parse glob doc = .ok cfg)
    : List.Forall₂ (SaysRule glob) (ruleTables doc.entries) cfg.rules := by
  obtain ⟨file, rules, hfile, hrules, rfl⟩ := parse_eq_ok_iff.mp h
  have hread := rules_of_deserialize hfile
  have hcompiled := (compileRules_ok hrules).2
  dsimp only
  clear hrules hfile h
  generalize ruleTables doc.entries = vs, file.rules = rs at hread hcompiled ⊢
  induction hread generalizing rules with
  | nil =>
    cases hcompiled
    exact .nil
  | cons hr _ ih =>
    cases hcompiled with
    | cons hrule hrest => exact .cons (says_of_compiled (reads_of_deserialize hr) hrule) (ih _ hrest)

theorem not_parsesAsDocumented (hplain : ¬ Plain doc.entries)
    (hdoc : Documented glob (readEntries doc.entries))
    : ¬ ParsesAsDocumented glob doc := by
  intro h
  exact hplain (h.accepts.mp (accepts_iff.mpr hdoc)).plain

-- Unless a document would be fine if undocumented keys at its top level were not there and records in
-- arrays were tables.
theorem parses_as_documented_iff (glob : List Char → Option (List Char → Bool)) (doc : Document F)
    : ParsesAsDocumented glob doc
        ↔
      Plain doc.entries ∨ ¬ Documented glob (readEntries doc.entries) := by
  constructor
  . intro h
    by_cases hplain : Plain doc.entries
    . exact .inl hplain
    . right
      intro hdoc
      exact not_parsesAsDocumented hplain hdoc h
  . intro h
    refine ⟨?_, fun cfg hcfg => rules_of_parse hcfg⟩
    rw [accepts_iff]
    cases h with
    | inl hplain => rw [hplain.read]
    | inr hnot =>
      apply iff_of_false hnot
      intro hdoc
      rw [hdoc.plain.read] at hnot
      exact hnot hdoc

-- `[option]` for `[options]`.
def misspelled : Document Rat where
  entries := [("option".toList, .table [("slice_us".toList, .integer 3000)])]
  wellFormed := by decide

theorem misspelled_not_documented : ¬ ParsesAsDocumented (fun _ => none) misspelled := by
  apply not_parsesAsDocumented
  . intro hplain
    have hkey := hplain.keys _ List.mem_cons_self
    contradiction
  . intro e he
    have hnil : readEntries misspelled.entries = [] := rfl
    rw [hnil] at he
    contradiction

end Parse

end Config
