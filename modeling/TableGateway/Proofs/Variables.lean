import TableGateway.Configuration
import TableGateway.Proofs.IntegerParameters
import TableGateway.Proofs.Trimming
import TableGateway.Proofs.WrittenDates

/-! Configurations from variables. Each variable sets a field of its own, as the setting for that field does, and the
fields without a variable keep their defaults. A number that cannot be read is a fault before anything is checked, and
the first such number is named. -/
namespace TableGateway

namespace Integral

inductive Counts : Text → Nat → Prop
  | number {before t after : Text} {n : Nat} (blankBefore : ∀ c ∈ before, isBlank c) (spelled : Spells t n)
      (unsigned : t.head? ≠ some '-') (blankAfter : ∀ c ∈ after, isBlank c) : Counts (before ++ (t ++ after)) n

variable {width : Nat} {t : Text}

theorem readUnsigned {n : Int} :
    read (.unsigned width) t = .ok n ↔ Spells t n ∧ t.head? ≠ some '-' ∧ n < 2 ^ width := by
  have above : 0 ≤ (Range.unsigned width).high := by
    have positive : (0 : Int) < 2 ^ width := by positivity
    simp only [Range.unsigned]
    omega
  have below (n : Int) : n ≤ (Range.unsigned width).high ↔ n < 2 ^ width := by
    simp only [Range.unsigned]
    omega
  cases t with
  | nil =>
    constructor
    · nofun
    · rintro ⟨spelled, -⟩
      cases spelled
      contradiction
  | cons c t =>
    by_cases plus : c = '+'
    · subst plus
      cases t with
      | nil => simp [read, spellsPlus]
      | cons d t =>
        have taken : read (.unsigned width) ('+' :: d :: t) = readUp (.unsigned width) 0 (d :: t) := rfl
        rw [taken, readUpWhole above, spellsPlus, below]
        constructor
        · rintro ⟨all, value, fits⟩
          exact ⟨⟨List.cons_ne_nil d t, all, value⟩, by simp, fits⟩
        · rintro ⟨⟨-, all, value⟩, -, fits⟩
          exact ⟨all, value, fits⟩
    by_cases minus : c = '-'
    · subst minus
      cases t <;> simp [read, Range.unsigned]
    · have taken : read (.unsigned width) (c :: t) = readUp (.unsigned width) 0 (c :: t) := by
        simp [read, plus, minus]
      rw [taken, readUpWhole above, spellsUnsigned plus minus, below]
      constructor
      · rintro ⟨all, value, fits⟩
        exact ⟨⟨all, value⟩, by simpa using minus, fits⟩
      · rintro ⟨⟨all, value⟩, -, fits⟩
        exact ⟨all, value, fits⟩

theorem spelledUnsigned {n : Int} (spelled : Spells t n) (unsigned : t.head? ≠ some '-') : ∃ k : Nat, n = k := by
  cases spelled with
  | digits _ _ value => exact ⟨_, value⟩
  | plus _ _ value => exact ⟨_, value⟩
  | minus => exact absurd rfl unsigned

theorem spelledSolid {n : Int} (spelled : Spells t n) : ∀ c ∈ t, ¬isBlank c := by
  cases spelled with
  | digits _ all => exact fun c member => Text.digitSolid (all c member)
  | plus _ all => exact List.forall_mem_cons.mpr ⟨by decide, fun c member => Text.digitSolid (all c member)⟩
  | minus _ all => exact List.forall_mem_cons.mpr ⟨by decide, fun c member => Text.digitSolid (all c member)⟩

theorem countsTrimmed {n : Nat} : Counts t n ↔ Spells (Text.trim t) n ∧ (Text.trim t).head? ≠ some '-' := by
  constructor
  · rintro ⟨blankBefore, spelled, unsigned, blankAfter⟩
    rw [Text.trimBehind blankBefore, Text.trimBefore blankAfter, Text.trimSolid (spelledSolid spelled)]
    exact ⟨spelled, unsigned⟩
  · rintro ⟨spelled, unsigned⟩
    obtain ⟨before, after, whole, blankBefore, blankAfter⟩ := Text.trimSplit t
    rw [whole]
    exact .number blankBefore spelled unsigned blankAfter

end Integral

namespace Configuration

def get (c : Configuration) : Variable → Setting
  | .host => .host c.host
  | .port => .port c.port
  | .database => .database c.database
  | .user => .user c.user
  | .password => .password c.password
  | .maxSize => .maxSize c.maxSize
  | .idleTimeout => .idleTimeout c.idleTimeout
  | .connectTimeout => .connectTimeout c.connectTimeout

namespace Variable
open Integral (Counts)

inductive Plain : Variable → (Text → Setting) → Prop
  | host : Plain .host .host
  | database : Plain .database .database
  | user : Plain .user .user
  | password : Plain .password .password

inductive Numbered : Variable → Nat → (Nat → Setting) → Prop
  | port : Numbered .port 16 .port
  | maxSize : Numbered .maxSize 64 .maxSize
  | idleTimeout : Numbered .idleTimeout 64 .idleTimeout
  | connectTimeout : Numbered .connectTimeout 64 .connectTimeout

inductive Sets : Variable → Text → Setting → Prop
  | plain {v : Variable} {make : Text → Setting} (plain : Plain v make) (raw : Text) : Sets v raw (make raw)
  | number {v : Variable} {width : Nat} {make : Nat → Setting} (numbered : Numbered v width make) {raw : Text} {n : Nat}
      (counts : Counts raw n) (fits : n < 2 ^ width) : Sets v raw (make n)

variable {v : Variable} {raw : Text} {s : Setting}

theorem numberRead {width n : Nat} : v.number width raw = .ok n ↔ Counts raw n ∧ n < 2 ^ width := by
  have read := @Integral.readUnsigned width (Text.trim raw)
  rw [Integral.countsTrimmed]
  cases found : Integral.read (.unsigned width) (Text.trim raw) with
  | ok m =>
    obtain ⟨spelled, unsigned, fits⟩ := read.mp found
    obtain ⟨k, rfl⟩ := Integral.spelledUnsigned spelled unsigned
    simp only [number, found, Int.toNat_natCast, Except.ok.injEq]
    constructor
    · rintro rfl
      exact ⟨⟨spelled, unsigned⟩, by exact_mod_cast fits⟩
    · rintro ⟨⟨spelled, unsigned⟩, fits⟩
      have other := read.mpr ⟨spelled, unsigned, by exact_mod_cast fits⟩
      rw [found, Except.ok.injEq] at other
      exact_mod_cast other
  | error e =>
    simp only [number, found]
    constructor
    · nofun
    · rintro ⟨⟨spelled, unsigned⟩, fits⟩
      have other := read.mpr ⟨spelled, unsigned, by exact_mod_cast fits⟩
      rw [found] at other
      cases other

theorem numberFault {width : Nat} {fault : Fault} (error : v.number width raw = .error fault) :
    fault = .config (.notNumber v.key raw) := by
  rw [number] at error
  split at error
  · cases error
  · exact (Except.error.inj error).symm

theorem Numbered.setting {width : Nat} {make : Nat → Setting} (numbered : Numbered v width make) (raw : Text) :
    v.setting raw = (v.number width raw).map make := by
  cases numbered <;> rfl

theorem Plain.setting {make : Text → Setting} (plain : Plain v make) (raw : Text) : v.setting raw = .ok (make raw) := by
  cases plain <;> rfl

theorem kinds (v : Variable) : (∃ make, Plain v make) ∨ ∃ width make, Numbered v width make := by
  cases v with
  | host => exact .inl ⟨_, .host⟩
  | port => exact .inr ⟨_, _, .port⟩
  | database => exact .inl ⟨_, .database⟩
  | user => exact .inl ⟨_, .user⟩
  | password => exact .inl ⟨_, .password⟩
  | maxSize => exact .inr ⟨_, _, .maxSize⟩
  | idleTimeout => exact .inr ⟨_, _, .idleTimeout⟩
  | connectTimeout => exact .inr ⟨_, _, .connectTimeout⟩

theorem settingSets : v.setting raw = .ok s ↔ v.Sets raw s := by
  constructor
  · intro set
    rcases kinds v with ⟨make, plain⟩ | ⟨width, make, numbered⟩
    · rw [plain.setting] at set
      cases set
      exact .plain plain raw
    · rw [numbered.setting] at set
      cases read : v.number width raw with
      | error fault =>
        rw [read] at set
        cases set
      | ok n =>
        rw [read] at set
        cases set
        obtain ⟨counts, fits⟩ := numberRead.mp read
        exact .number numbered counts fits
  · intro sets
    cases sets with
    | plain plain => exact plain.setting raw
    | number numbered counts fits =>
      rw [numbered.setting, numberRead.mpr ⟨counts, fits⟩]
      rfl

theorem settingFault {fault : Fault} (error : v.setting raw = .error fault) :
    fault = .config (.notNumber v.key raw) := by
  rcases kinds v with ⟨make, plain⟩ | ⟨width, make, numbered⟩
  · rw [plain.setting] at error
    cases error
  · rw [numbered.setting] at error
    cases read : v.number width raw with
    | error e =>
      rw [read] at error
      cases error
      exact numberFault read
    | ok n =>
      rw [read] at error
      cases error

theorem Sets.unique {other : Setting} (left : v.Sets raw s) (right : v.Sets raw other) : s = other :=
  Except.ok.inj ((settingSets.mpr left).symm.trans (settingSets.mpr right))

end Variable

open Variable

variable {lookup : Text → Option Text}

structure Follows (lookup : Text → Option Text) (settings : List Setting) : Prop where
  each : ∀ s ∈ settings, ∃ v raw, lookup (key v) = some raw ∧ v.Sets raw s
  all : ∀ v raw, lookup (key v) = some raw → ∃ s ∈ settings, v.Sets raw s

def Reflects (lookup : Text → Option Text) (c : Configuration) : Prop :=
  ∀ v, match lookup (key v) with
    | some raw => v.Sets raw (c.get v)
    | none => c.get v = get {} v

theorem getInjective {c d : Configuration} (same : ∀ v, c.get v = d.get v) : c = d := by
  have host := same .host
  have port := same .port
  have database := same .database
  have user := same .user
  have password := same .password
  have maxSize := same .maxSize
  have idleTimeout := same .idleTimeout
  have connectTimeout := same .connectTimeout
  simp only [get, Setting.host.injEq, Setting.port.injEq, Setting.database.injEq, Setting.user.injEq,
    Setting.password.injEq, Setting.maxSize.injEq, Setting.idleTimeout.injEq, Setting.connectTimeout.injEq] at *
  cases c
  cases d
  simp_all

theorem getSetOwn {v : Variable} {raw : Text} {s : Setting} (sets : v.Sets raw s) (c : Configuration) :
    (c.set s).get v = s := by
  cases sets with
  | plain plain => cases plain <;> rfl
  | number numbered => cases numbered <;> rfl

theorem getSetOther {v w : Variable} {raw : Text} {s : Setting} (sets : v.Sets raw s) (other : w ≠ v)
    (c : Configuration) : (c.set s).get w = c.get w := by
  cases sets with
  | plain plain => cases plain <;> cases w <;> first | rfl | contradiction
  | number numbered => cases numbered <;> cases w <;> first | rfl | contradiction

theorem foldlGet {settings : List Setting} {v : Variable} {w : Setting} {c : Configuration}
    (each : ∀ s ∈ settings, (∀ d : Configuration, (d.set s).get v = w) ∨
      ∀ d : Configuration, (d.set s).get v = d.get v)
    (known : c.get v = w ∨ ∃ s ∈ settings, ∀ d : Configuration, (d.set s).get v = w) :
    (settings.foldl set c).get v = w := by
  induction settings generalizing c with
  | nil => simpa using known
  | cons s rest ih =>
    obtain ⟨first, others⟩ := List.forall_mem_cons.mp each
    rw [List.foldl_cons]
    rcases first with own | other
    · exact ih others (.inl (own c))
    · refine ih others ?_
      rw [other]
      rcases known with there | ⟨t, member, sets⟩
      · exact .inl there
      · rcases List.mem_cons.mp member with rfl | later
        · exact .inl ((other c).symm.trans (sets c))
        · exact .inr ⟨t, later, sets⟩

theorem Follows.reflects {settings : List Setting} (follows : Follows lookup settings) :
    Reflects lookup (settings.foldl set {}) := by
  intro v
  split
  case h_1 raw there =>
    obtain ⟨s, member, sets⟩ := follows.all v raw there
    have found : (settings.foldl set {}).get v = s := by
      refine foldlGet (fun t inside => ?_) (.inr ⟨s, member, getSetOwn sets⟩)
      -- only the own variable reaches the field, and all settings for it are one
      obtain ⟨w, text, thereToo, setsToo⟩ := follows.each t inside
      by_cases same : v = w
      · subst same
        obtain rfl := Option.some.inj (there.symm.trans thereToo)
        exact .inl (sets.unique setsToo ▸ getSetOwn sets)
      · exact .inr (getSetOther setsToo same)
    rwa [found]
  case h_2 absent =>
    refine foldlGet (fun t inside => ?_) (.inl rfl)
    obtain ⟨w, text, there, sets⟩ := follows.each t inside
    refine .inr (getSetOther sets ?_)
    rintro rfl
    rw [absent] at there
    cases there

theorem Reflects.unique {c d : Configuration} (left : Reflects lookup c) (right : Reflects lookup d) : c = d := by
  refine getInjective fun v => ?_
  have here := left v
  have there := right v
  cases found : lookup (key v) with
  | some raw =>
    simp only [found] at here there
    exact here.unique there
  | none =>
    simp only [found] at here there
    exact here.trans there.symm

def Legible (lookup : Text → Option Text) (v : Variable) : Prop :=
  ∀ raw, lookup (key v) = some raw → ∃ s, v.Sets raw s

inductive FirstIllegible (lookup : Text → Option Text) : List Variable → Variable → Text → Prop
  | here {v : Variable} {rest : List Variable} {raw : Text} (there : lookup (key v) = some raw)
      (illegible : ∀ s, ¬v.Sets raw s) : FirstIllegible lookup (v :: rest) v raw
  | later {v w : Variable} {rest : List Variable} {raw : Text} (legible : Legible lookup v)
      (behind : FirstIllegible lookup rest w raw) : FirstIllegible lookup (v :: rest) w raw

def numbers : List Variable := [.port, .maxSize, .idleTimeout, .connectTimeout]

theorem legiblePlain {v : Variable} {make : Text → Setting} (plain : Plain v make) : Legible lookup v :=
  fun raw _ => ⟨make raw, .plain plain raw⟩

theorem FirstIllegible.among {v : Variable} {raw : Text} (first : FirstIllegible lookup numbers v raw) :
    FirstIllegible lookup Variable.all v raw := by
  refine .later (legiblePlain .host) ?_
  cases first with
  | here there illegible => exact .here there illegible
  | later legible first =>
    refine .later legible (.later (legiblePlain .database) (.later (legiblePlain .user) ?_))
    exact .later (legiblePlain .password) first

theorem firstIllegible (vs : List Variable) (illegible : ¬∀ v ∈ vs, Legible lookup v) :
    ∃ v raw, FirstIllegible lookup vs v raw := by
  induction vs with
  | nil => exact absurd nofun illegible
  | cons v rest ih =>
    by_cases legible : Legible lookup v
    · have behind : ¬∀ w ∈ rest, Legible lookup w := fun all => illegible (List.forall_mem_cons.mpr ⟨legible, all⟩)
      obtain ⟨w, raw, first⟩ := ih behind
      exact ⟨w, raw, .later legible first⟩
    · simp only [Legible, not_forall, not_exists] at legible
      obtain ⟨raw, there, nothing⟩ := legible
      exact ⟨v, raw, .here there nothing⟩

theorem settingExists {v : Variable} {raw : Text} (legible : Legible lookup v) (there : lookup (key v) = some raw) :
    ∃ s, v.setting raw = .ok s ∧ v.Sets raw s := by
  obtain ⟨s, sets⟩ := legible raw there
  exact ⟨s, settingSets.mpr sets, sets⟩

theorem readLegible {vs : List Variable} (legible : ∀ v ∈ vs, Legible lookup v) :
    ∃ settings, readSettings lookup vs = .ok settings ∧
      (∀ s ∈ settings, ∃ v raw, lookup (key v) = some raw ∧ v.Sets raw s) ∧
      ∀ v ∈ vs, ∀ raw, lookup (key v) = some raw → ∃ s ∈ settings, v.Sets raw s := by
  induction vs with
  | nil => exact ⟨[], rfl, nofun, nofun⟩
  | cons v rest ih =>
    obtain ⟨first, others⟩ := List.forall_mem_cons.mp legible
    obtain ⟨settings, read, each, all⟩ := ih others
    cases there : lookup (key v) with
    | none =>
      refine ⟨settings, by rw [readSettings, there, read], each, List.forall_mem_cons.mpr ⟨?_, all⟩⟩
      simp [there]
    | some raw =>
      obtain ⟨s, set, sets⟩ := settingExists first there
      refine ⟨s :: settings, ?_, List.forall_mem_cons.mpr ⟨⟨v, raw, there, sets⟩, each⟩,
        List.forall_mem_cons.mpr ⟨?_, fun w member text found => ?_⟩⟩
      · simp only [readSettings, there, set, read]
        rfl
      · intro text found
        obtain rfl := Option.some.inj (there.symm.trans found)
        exact ⟨s, List.mem_cons_self, sets⟩
      · obtain ⟨t, inside, setsToo⟩ := all w member text found
        exact ⟨t, List.mem_cons_of_mem s inside, setsToo⟩

theorem readIllegible {vs : List Variable} {v : Variable} {raw : Text} (first : FirstIllegible lookup vs v raw) :
    readSettings lookup vs = .error (.config (.notNumber (key v) raw)) := by
  induction first with
  | @here v rest raw there illegible =>
    cases set : v.setting raw with
    | ok s => exact absurd (settingSets.mp set) (illegible s)
    | error fault =>
      rw [readSettings, there]
      simp only [set, settingFault set]
      rfl
  | @later v w rest raw legible behind ih =>
    cases there : lookup (key v) with
    | none => rw [readSettings, there, ih]
    | some text =>
      obtain ⟨s, set, -⟩ := settingExists legible there
      simp only [readSettings, there, set, ih]
      rfl

theorem legibleAll (legible : ∀ v ∈ numbers, Legible lookup v) (v : Variable) : Legible lookup v := by
  rcases kinds v with ⟨make, plain⟩ | ⟨width, make, numbered⟩
  · exact legiblePlain plain
  · exact legible v (by cases numbered <;> decide)

theorem lookupLegible (legible : ∀ v ∈ numbers, Legible lookup v) :
    ∃ settings, Follows lookup settings ∧ ofLookup lookup = ofSettings settings := by
  obtain ⟨settings, read, each, all⟩ := readLegible fun v (_ : v ∈ Variable.all) => legibleAll legible v
  refine ⟨settings, ⟨each, fun v => all v (by cases v <;> decide)⟩, ?_⟩
  rw [ofLookup, read]
  rfl

theorem lookupIllegible {v : Variable} {raw : Text} (first : FirstIllegible lookup numbers v raw) :
    ofLookup lookup = .error (.config (.notNumber (key v) raw)) := by
  rw [ofLookup, readIllegible first.among]
  rfl

theorem validateKeeps {c d : Configuration} (valid : c.validate = .ok d) : c = d := by
  unfold validate at valid
  split at valid
  · cases valid
  · split at valid
    · cases valid
    · exact Except.ok.inj valid

theorem variablesAsSettings (lookup : Text → Option Text) :
    ((∀ v ∈ numbers, Legible lookup v) → (∃ settings, Follows lookup settings) ∧
      ∀ settings, Follows lookup settings → ofLookup lookup = ofSettings settings) ∧
    ((¬∀ v ∈ numbers, Legible lookup v) → ∃ v raw, FirstIllegible lookup numbers v raw ∧
      ofLookup lookup = .error (.config (.notNumber (key v) raw))) ∧
    ∀ c, ofLookup lookup = .ok c → Reflects lookup c := by
  refine ⟨fun legible => ?_, fun illegible => ?_, fun c made => ?_⟩
  · obtain ⟨settings, follows, same⟩ := lookupLegible legible
    refine ⟨⟨settings, follows⟩, fun others followsToo => ?_⟩
    rw [same, ofSettings, ofSettings, follows.reflects.unique followsToo.reflects]
  · obtain ⟨v, raw, first⟩ := firstIllegible numbers illegible
    exact ⟨v, raw, first, lookupIllegible first⟩
  · by_cases legible : ∀ v ∈ numbers, Legible lookup v
    · obtain ⟨settings, follows, same⟩ := lookupLegible legible
      rw [same] at made
      exact validateKeeps made ▸ follows.reflects
    · obtain ⟨v, raw, first⟩ := firstIllegible numbers legible
      rw [lookupIllegible first] at made
      cases made

theorem greatestNumbersRead :
    let great : Text → Option Text := fun k =>
      if k = key .port then some " +0065535\n".toList
      else if k = key .connectTimeout then some "18446744073709551615".toList
      else none
    let signed : Text → Option Text := fun k =>
      if k = key .host then some []
      else if k = key .maxSize then some "-0".toList
      else if k = key .idleTimeout then some "soon".toList
      else none
    let settings : List Setting := [.connectTimeout 18446744073709551615, .port 65535]
    (∀ v ∈ numbers, Legible great v) ∧ Follows great settings ∧ ofLookup great = ofSettings settings ∧
      (¬∀ v ∈ numbers, Legible signed v) ∧
      (∃ v raw, FirstIllegible signed numbers v raw ∧ ofLookup signed = .error (.config (.notNumber (key v) raw))) ∧
      ofLookup signed = .error (.config (.notNumber "DB_POOL_MAX" "-0")) := by
  intro great signed settings
  have read : ∀ v ∈ Variable.all, ∀ raw ∈ great (key v), ∃ s ∈ settings, v.setting raw = .ok s := by decide +kernel
  have legible : ∀ v ∈ numbers, Legible great v := fun v member raw there => by
    obtain ⟨s, -, set⟩ := read v (by cases v <;> decide) raw there
    exact ⟨s, settingSets.mp set⟩
  have follows : Follows great settings := by
    refine ⟨?_, fun v raw there => ?_⟩
    · refine List.forall_mem_cons.mpr ⟨⟨.connectTimeout, _, rfl, settingSets.mp (by decide +kernel)⟩, ?_⟩
      exact List.forall_mem_singleton.mpr ⟨.port, _, rfl, settingSets.mp (by decide +kernel)⟩
    · obtain ⟨s, member, set⟩ := read v (by cases v <;> decide) raw there
      exact ⟨s, member, settingSets.mp set⟩
  have illegible : ¬∀ v ∈ numbers, Legible signed v := fun all => by
    obtain ⟨s, sets⟩ := all .maxSize (by decide) "-0".toList rfl
    cases settingSets.mpr sets
  exact ⟨legible, follows, ((variablesAsSettings great).1 legible).2 settings follows, illegible,
    (variablesAsSettings signed).2.1 illegible, by decide +kernel⟩

end Configuration
end TableGateway
