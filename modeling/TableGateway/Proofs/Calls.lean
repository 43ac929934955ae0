import TableGateway.Query.Call

/-! What a sequence of calls amounts to. Every call makes one change to the description of the operation, and
what changes of one group write no change of another group reads or writes. So the order of the calls counts
within a group only. -/
namespace TableGateway

inductive Call.Group
  | filter
  | fragment
  | select
  | order
  | limit
  | offset
  | single
  | insert
  | update
  | delete
  | misuse
  deriving DecidableEq, Repr

inductive Query.Change
  | filter (f : Filter)
  | fragment (expression : Text)
  | select (columns : Text)
  | order (o : Order)
  | limit (n : Int)
  | offset (n : Int)
  | single
  | insert (rows : List Record)
  | update (fields : Record)
  | delete
  | misuse (fault : Fault)

namespace Query.Change

def group : Change → Call.Group
  | .filter _ => .filter
  | .fragment _ => .fragment
  | .select _ => .select
  | .order _ => .order
  | .limit _ => .limit
  | .offset _ => .offset
  | .single => .single
  | .insert _ => .insert
  | .update _ => .update
  | .delete => .delete
  | .misuse _ => .misuse

def apply (q : Query) : Change → Query
  | .filter f => q.addFilter f
  | .fragment expression => { q with fragments := q.fragments ++ [expression] }
  | .select columns => { q with columns := some columns, returning := true }
  | .order o => { q with order := some o }
  | .limit n => { q with limit := some n }
  | .offset n => { q with offset := some n }
  | .single => { q with single := true }
  | .insert rows => { q with insert := some rows }
  | .update fields => { q with update := some fields }
  | .delete => { q with delete := true }
  | .misuse fault => q.fail fault

def settled {α : Type} (change : α → Change) : Except Fault α → Change
  | .ok x => change x
  | .error fault => .misuse fault

theorem settledApply {α : Type} (change : α → Change) (q : Query) (result : Except Fault α) :
    (settled change result).apply q = q.keep result fun x => (change x).apply q := by
  cases result with
  | error fault => rfl
  | ok x => rfl

end Query.Change

def Call.change (table : Text) : Call → Query.Change
  | .select columns => .select columns
  | .filter operator column value => .filter (.of column operator value)
  | .not column operator value => .settled .filter (filter? column operator value)
  | .among column values => .filter (.among column values)
  | .contains column payload => .settled .filter (contained column payload)
  | .or expression => .fragment expression
  | .order o => .order o
  | .limit n => .limit n
  | .offset n => .offset n
  | .single => .single
  | .insert payload => .settled .insert (records table payload)
  | .update payload => .settled .update (fields table payload)
  | .delete => .delete

def Call.group (table : Text) (c : Call) : Group := (c.change table).group

namespace Query

def changes (q : Query) (ds : List Change) : Query := ds.foldl Change.apply q

def SameIn (q r : Query) : Call.Group → Prop
  | .filter => q.filters = r.filters
  | .fragment => q.fragments = r.fragments
  | .select => q.columns = r.columns ∧ q.returning = r.returning
  | .order => q.order = r.order
  | .limit => q.limit = r.limit
  | .offset => q.offset = r.offset
  | .single => q.single = r.single
  | .insert => q.insert = r.insert
  | .update => q.update = r.update
  | .delete => q.delete = r.delete
  | .misuse => q.misuse = r.misuse

theorem SameIn.refl (q : Query) (g : Call.Group) : q.SameIn q g := by
  cases g with
  | select => exact ⟨rfl, rfl⟩
  | _ => rfl

theorem SameIn.symm {q r : Query} {g : Call.Group} (same : q.SameIn r g) : r.SameIn q g := by
  cases g with
  | select => exact ⟨same.1.symm, same.2.symm⟩
  | _ => exact Eq.symm same

theorem SameIn.trans {q r s : Query} {g : Call.Group} (first : q.SameIn r g) (second : r.SameIn s g) :
    q.SameIn s g := by
  cases g with
  | select => exact ⟨first.1.trans second.1, first.2.trans second.2⟩
  | _ => exact Eq.trans first second

theorem SameIn.everywhere {q r : Query} (table : q.table = r.table) (same : ∀ g, q.SameIn r g) : q = r := by
  obtain ⟨columns, returning⟩ := same .select
  cases q
  cases r
  congr
  · exact same .filter
  · exact same .fragment
  · exact same .order
  · exact same .limit
  · exact same .offset
  · exact same .insert
  · exact same .update
  · exact same .delete
  · exact same .single
  · exact same .misuse

theorem applyTable (q : Query) (d : Change) : (d.apply q).table = q.table := by
  cases d with
  | _ => rfl

theorem applyElsewhere {q r : Query} {d : Change} {g : Call.Group} (other : d.group ≠ g) (same : q.SameIn r g) :
    (d.apply q).SameIn r g := by
  cases d with
  | _ =>
    cases g with
    | _ => first | exact same | exact absurd rfl other

theorem applyWithin {q r : Query} {d : Change} (same : q.SameIn r d.group) :
    (d.apply q).SameIn (d.apply r) d.group := by
  cases d with
  | filter f => exact congrArg (· ++ [f]) same
  | fragment expression => exact congrArg (· ++ [expression]) same
  | select columns => exact ⟨rfl, rfl⟩
  | misuse fault => exact congrArg (·.or (some fault)) same
  | _ => rfl

theorem changesWithin {q r : Query} {g : Call.Group} (same : q.SameIn r g) (ds : List Change) :
    (q.changes ds).SameIn (r.changes (ds.filter (·.group = g))) g := by
  induction ds generalizing q r with
  | nil => exact same
  | cons d ds ih =>
    by_cases inside : d.group = g
    · subst inside
      rw [List.filter_cons_of_pos (by simp)]
      exact ih (applyWithin same)
    · rw [List.filter_cons_of_neg (by simpa using inside)]
      exact ih (applyElsewhere inside same)

theorem changesTable (q : Query) (ds : List Change) : (q.changes ds).table = q.table := by
  induction ds generalizing q with
  | nil => rfl
  | cons d ds ih => exact (ih (d.apply q)).trans (q.applyTable d)

theorem callChange (q : Query) (c : Call) : q.call c = (c.change q.table).apply q := by
  cases c with
  | not column operator value => exact (Change.settledApply .filter q _).symm
  | contains column payload => exact (Change.settledApply .filter q _).symm
  | insert payload => exact (Change.settledApply .insert q _).symm
  | update payload => exact (Change.settledApply .update q _).symm
  | _ => rfl

theorem callsChanges (q : Query) (cs : List Call) : q.calls cs = q.changes (cs.map (Call.change q.table)) := by
  induction cs generalizing q with
  | nil => rfl
  | cons c cs ih =>
    have table : (q.call c).table = q.table := by rw [callChange, applyTable]
    change (q.call c).calls cs = ((c.change q.table).apply q).changes _
    rw [ih, table, callChange]

theorem callsTable (q : Query) (cs : List Call) : (q.calls cs).table = q.table := by
  rw [callsChanges, changesTable]

theorem callsWithin (q : Query) (cs : List Call) (g : Call.Group) :
    (q.calls cs).SameIn (q.calls (cs.filter (Call.group q.table · = g))) g := by
  have within := changesWithin (SameIn.refl q g) (cs.map (Call.change q.table))
  rw [List.filter_map] at within
  rw [callsChanges, callsChanges]
  exact within

theorem callsSame (q : Query) {cs ds : List Call} {g : Call.Group}
    (same : cs.filter (Call.group q.table · = g) = ds.filter (Call.group q.table · = g)) :
    (q.calls cs).SameIn (q.calls ds) g := by
  have first := q.callsWithin cs g
  rw [same] at first
  exact first.trans (q.callsWithin ds g).symm

theorem callsByGroups (q : Query) {cs ds : List Call}
    (same : ∀ g, cs.filter (Call.group q.table · = g) = ds.filter (Call.group q.table · = g)) :
    q.calls cs = q.calls ds :=
  SameIn.everywhere ((q.callsTable cs).trans (q.callsTable ds).symm) fun g => q.callsSame (same g)

end Query

namespace Call

variable (table : Text) (cs : List Call)

def asked (g : Call.Group) : Bool := cs.any fun c => c.group table = g

def intent : Action :=
  if asked table cs .insert then .insert
  else if asked table cs .update then .update
  else if asked table cs .delete then .delete
  else .select

def overridden : Group → Bool
  | .update => asked table cs .insert
  | .delete => asked table cs .insert || asked table cs .update
  | _ => false

def effective : List Call := cs.filter fun c => !overridden table cs (c.group table)

theorem effectiveGroup {g : Call.Group} (counts : overridden table cs g = false) :
    (effective table cs).filter (group table · = g) = cs.filter (group table · = g) := by
  rw [effective, List.filter_filter]
  refine List.filter_congr fun c _ => ?_
  by_cases inside : c.group table = g
  · simp [inside, counts]
  · simp [inside]

end Call

namespace Query

variable {q : Query}

def intends (q : Query) : Call.Group → Bool
  | .insert => q.insert.isSome
  | .update => q.update.isSome
  | .delete => q.delete
  | _ => false

def Mutating (g : Call.Group) : Prop := g ∈ [Call.Group.insert, .update, .delete]

theorem applyIntends {g : Call.Group} (mutating : Mutating g) (q : Query) (d : Change) :
    (d.apply q).intends g = (q.intends g || decide (d.group = g)) := by
  obtain rfl | rfl | rfl : g = .insert ∨ g = .update ∨ g = .delete := by simpa [Mutating] using mutating
  · cases d <;> simp [intends, Change.apply, Change.group, addFilter, fail]
  · cases d <;> simp [intends, Change.apply, Change.group, addFilter, fail]
  · cases d <;> simp [intends, Change.apply, Change.group, addFilter, fail]

theorem changesIntend {g : Call.Group} (mutating : Mutating g) (q : Query) (ds : List Change) :
    (q.changes ds).intends g = (q.intends g || ds.any fun d => d.group = g) := by
  induction ds generalizing q with
  | nil => exact (Bool.or_false _).symm
  | cons d ds ih =>
    rw [List.any_cons, ← Bool.or_assoc, ← applyIntends mutating]
    exact ih (d.apply q)

theorem callsIntend {g : Call.Group} (mutating : Mutating g) (table : Text) (cs : List Call) :
    ((of table).calls cs).intends g = Call.asked table cs g := by
  have none : (of table).intends g = false := by
    obtain rfl | rfl | rfl : g = .insert ∨ g = .update ∨ g = .delete := by simpa [Mutating] using mutating
    · rfl
    · rfl
    · rfl
  rw [callsChanges, changesIntend mutating, none, Bool.false_or, List.any_map]
  rfl

theorem actionIntended (table : Text) (cs : List Call) :
    ((of table).calls cs).action = Call.intent table cs := by
  have insert := callsIntend (g := .insert) (by simp [Mutating]) table cs
  have update := callsIntend (g := .update) (by simp [Mutating]) table cs
  have delete := callsIntend (g := .delete) (by simp [Mutating]) table cs
  unfold Call.intent
  rw [← insert, ← update, ← delete]
  rfl

def overrides (q : Query) : Call.Group → Bool
  | .update => q.insert.isSome
  | .delete => q.insert.isSome || q.update.isSome
  | _ => false

theorem planOverridden {q r : Query} (table : q.table = r.table)
    (same : ∀ g, q.overrides g = false → q.SameIn r g) : q.plan = r.plan := by
  have replaced : r = { q with update := r.update, delete := r.delete } :=
    SameIn.everywhere table.symm fun g => by
      cases g with
      | update => rfl
      | delete => rfl
      | select => exact (same .select rfl).symm
      | filter => exact (same .filter rfl).symm
      | fragment => exact (same .fragment rfl).symm
      | order => exact (same .order rfl).symm
      | limit => exact (same .limit rfl).symm
      | offset => exact (same .offset rfl).symm
      | single => exact (same .single rfl).symm
      | insert => exact (same .insert rfl).symm
      | misuse => exact (same .misuse rfl).symm
  have update : q.insert = none → q.update = r.update := fun none => same .update (by simp [overrides, none])
  have delete : q.insert = none → q.update = none → q.delete = r.delete := fun none other =>
    same .delete (by simp [overrides, none, other])
  rw [replaced]
  generalize r.update = fields at *
  generalize r.delete = deleted at *
  obtain ⟨_, _, _, _, _, _, _, rows, fields', deleted', _, _, _⟩ := q
  cases rows with
  | some rows => rfl
  | none =>
    obtain rfl : fields' = fields := update rfl
    cases fields' with
    | some fields => rfl
    | none =>
      obtain rfl : deleted' = deleted := delete rfl rfl
      rfl

theorem callsOverride (table : Text) (cs : List Call) (g : Call.Group) :
    ((of table).calls cs).overrides g = Call.overridden table cs g := by
  have insert := callsIntend (g := .insert) (by simp [Mutating]) table cs
  have update := callsIntend (g := .update) (by simp [Mutating]) table cs
  unfold overrides Call.overridden
  rw [← insert, ← update]
  rfl

theorem planEffective (table : Text) (cs : List Call) :
    ((of table).calls cs).plan = ((of table).calls (Call.effective table cs)).plan := by
  refine planOverridden ((callsTable _ _).trans (callsTable _ _).symm) fun g counts => ?_
  rw [callsOverride] at counts
  exact callsSame (of table) (Call.effectiveGroup table cs counts).symm

theorem planAction {p : Plan} (planned : q.plan = .ok p) : p.action = q.action := by
  unfold plan at planned
  cases misuse : q.misuse with
  | some fault =>
    rw [misuse] at planned
    cases planned
  | none =>
    rw [misuse] at planned
    cases built : q.statements with
    | error fault =>
      rw [built] at planned
      cases planned
    | ok statements =>
      rw [built] at planned
      cases planned
      rfl

theorem planByGroups (table : Text) {cs ds : List Call}
    (same : ∀ g, cs.filter (Call.group table · = g) = ds.filter (Call.group table · = g)) :
    ((of table).calls cs).plan = ((of table).calls ds).plan ∧
      ((of table).calls cs).plan = ((of table).calls (Call.effective table cs)).plan ∧
      ∀ p, ((of table).calls cs).plan = .ok p → p.action = Call.intent table cs :=
  ⟨congrArg plan ((of table).callsByGroups same), planEffective table cs,
    fun _ planned => (planAction planned).trans (actionIntended table cs)⟩

theorem insertMadeLast :
    let insert : Call := .insert (.ok (.object [("id".toList, .null)]))
    let select : Call := .select "id".toList
    let first : Call := .filter .gt "id".toList (.int 1)
    let second : Call := .not "id".toList "in".toList .null
    let cs := [insert, first, select, .delete, second]
    let ds := [.delete, first, second, select, insert]
    (∀ g, cs.filter (Call.group "users".toList · = g) = ds.filter (Call.group "users".toList · = g)) ∧
      ((of "users".toList).calls cs).plan = ((of "users".toList).calls ds).plan ∧
      ((of "users".toList).calls ds).plan.map Plan.action = .ok .insert := by
  intro insert select first second cs ds
  have same : ∀ g, cs.filter (Call.group "users".toList · = g) = ds.filter (Call.group "users".toList · = g) := by
    intro g
    cases g <;> rfl
  exact ⟨same, (planByGroups "users".toList same).1, rfl⟩

end Query
end TableGateway
