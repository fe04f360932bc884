import SqlFront.Json.Decode
import SqlFront.Json.Encode

/-!
# Statements through JSON

Every part of a query is read back from its JSON form: first the parts that are not recursive, then
the calls in calls by recursion on them, and the chain of queries by induction. What is nested is
read to a depth that bounds the recursion, so a bound that holds of a form has to hold of its parts.
-/

set_option autoImplicit false

namespace SqlFront

namespace Json

variable {α : Type} {write : α → Json} {read : Json → Option α} {name tag : String}
  {fs : List (String × Json)} {v : Json}

/-! ## Fields and lists -/

@[simp] theorem asBool?_bool (b : Bool) : asBool? (.bool b) = some b := rfl

@[simp] theorem asString?_string (s : String) : asString? (.string s) = some s := rfl

@[simp] theorem asNat?_ofNat (n : Nat) : asNat? (ofNat n) = some n := rfl

@[simp] theorem ofInt?_toInt (v : Int64) : Number.ofInt? v.toInt = some v := by
  have hlow := v.le_toInt
  have hhigh := v.toInt_lt
  unfold Number.ofInt?
  rw [if_pos ⟨by omega, by omega⟩, Int64.ofInt_toInt]

@[simp] theorem asInt64?_toInt (v : Int64) : asInt64? (.integer v.toInt) = some v :=
  ofInt?_toInt v

theorem asList?_array {vs : List Json} : asList? read (.array vs) = vs.mapM read := rfl

theorem asList?_ofList {as : List α} (h : ∀ a ∈ as, read (write a) = some a) :
    asList? read (ofList write as) = some as := by
  unfold ofList
  rw [asList?_array]
  induction as with
  | nil => rfl
  | cons a as ih =>
    have ha := h a List.mem_cons_self
    have has := ih fun b hb => h b (List.mem_cons_of_mem a hb)
    rw [List.map_cons, List.mapM_cons, ha, has]
    rfl

@[simp] theorem asList?_string (ss : List String) :
    asList? asString? (ofList .string ss) = some ss :=
  asList?_ofList fun s _ => asString?_string s

@[simp] theorem field?_here : field? name (.object ((name, v) :: fs)) = some v := by
  simp [field?]

@[simp] theorem field?_behind {other : String} (h : name ≠ other) :
    field? name (.object ((other, v) :: fs)) = field? name (.object fs) := by
  simp [field?, List.lookup_cons, beq_false_of_ne h]

theorem le_depthFields {f : String × Json} (h : f ∈ fs) : depth f.2 ≤ depthFields fs := by
  induction fs with
  | nil => cases h
  | cons g fs ih =>
    rw [depthFields]
    rcases List.mem_cons.1 h with rfl | h
    · exact Nat.le_max_left _ _
    · exact Nat.le_trans (ih h) (Nat.le_max_right _ _)

@[simp] theorem get?_eq : get? read name v = (field? name v).bind read := rfl

@[simp] theorem getOptional?_eq : getOptional? read name v = optional? read (field? name v) := rfl

theorem optional?_ofOption {a? : Option α} (hnull : ∀ a, write a ≠ .null)
    (h : ∀ a, read (write a) = some a) : optional? read (some (ofOption write a?)) = some a? := by
  cases a? with
  | none => rfl
  | some a =>
    have ha := hnull a
    show optional? read (some (write a)) = some (some a)
    unfold optional?
    split
    · contradiction
    · next heq => exact absurd (Option.some.inj heq) ha
    · next heq => rw [← Option.some.inj heq, h a]; rfl

@[simp] theorem optional?_string (s? : Option String) :
    optional? asString? (some (ofOption .string s?)) = some s? :=
  optional?_ofOption (fun _ => Json.noConfusion) asString?_string

@[simp] theorem optional?_ofNat (n? : Option Nat) :
    optional? asNat? (some (ofOption ofNat n?)) = some n? :=
  optional?_ofOption (fun _ => Json.noConfusion) asNat?_ofNat

@[simp] theorem optional?_int64 (v? : Option Int64) :
    optional? asInt64? (some (ofOption (fun v => .integer v.toInt) v?)) = some v? :=
  optional?_ofOption (fun _ => Json.noConfusion) asInt64?_toInt

end Json

open Json

/-! ## Findings -/

@[simp] theorem Number.ofJson?_integer (v : Int64) :
    Number.ofJson? (Number.integer v).toJson = some (.integer v) := by
  simp [Number.ofJson?, Number.toJson]

@[simp] theorem Table.ofJson?_toJson (t : Table) : ofJson? t.toJson = some t := by
  simp (disch := decide) [ofJson?, toJson]

@[simp] theorem Tables.ofJson?_toJson (ts : Tables) : ofJson? ts.toJson = some ts := by
  simp [ofJson?, toJson, asList?_ofList]

@[simp] theorem Column.ofJson?_toJson (c : Column) : ofJson? c.toJson = some c := by
  simp (disch := decide) [ofJson?, toJson]

@[simp] theorem ConditionOperator.ofJson?_toJson (o : ConditionOperator) :
    ofJson? o.toJson = some o := by cases o <;> rfl

@[simp] theorem Edit.ofJson?_toJson (e : Edit) : ofJson? e.toJson = some e := by
  cases e <;> simp (disch := decide) [ofJson?, toJson, tagged]

@[simp] theorem StatementKind.ofJson?_toJson (k : StatementKind) : ofJson? k.toJson = some k := by
  cases k <;> rfl

def Expression.IsWhole : Expression → Prop
  | .number (.decimal _) => False
  | _ => True

def Findings.IsWhole (f : Findings) : Prop :=
  ∀ g ∈ f.conditions.groups, ∀ c ∈ g.conditions, ∀ e ∈ c.values, e.IsWhole

theorem Expression.ofJson?_toJson {e : Expression} (h : e.IsWhole) : ofJson? e.toJson = some e := by
  cases e with
  | number value =>
    cases value with
    | integer v => simp (disch := decide) [ofJson?, toJson, tagged]
    | decimal x => exact h.elim
  | _ => simp (disch := decide) [ofJson?, toJson, tagged]

theorem Condition.ofJson?_toJson {c : Condition} (h : ∀ e ∈ c.values, e.IsWhole) :
    ofJson? c.toJson = some c := by
  have hvalues := asList?_ofList fun e he => Expression.ofJson?_toJson (h e he)
  simp (disch := decide) [ofJson?, toJson, hvalues]

theorem ConditionGroup.ofJson?_toJson {g : ConditionGroup}
    (h : ∀ c ∈ g.conditions, ∀ e ∈ c.values, e.IsWhole) : ofJson? g.toJson = some g := by
  have hconditions := asList?_ofList fun c hc => Condition.ofJson?_toJson (h c hc)
  simp (disch := decide) [ofJson?, toJson, hconditions]

theorem Findings.ofJson?_toJson {f : Findings} (h : f.IsWhole) : ofJson? f.toJson = some f := by
  have hgroups := asList?_ofList fun g hg => ConditionGroup.ofJson?_toJson (h g hg)
  have hconditions : Conditions.ofJson? f.conditions.toJson = some f.conditions := by
    simp (disch := decide) [Conditions.ofJson?, Conditions.toJson, hgroups]
  have hedits := asList?_ofList fun (e : Edit) (_ : e ∈ f.edits) => e.ofJson?_toJson
  simp (disch := decide) [ofJson?, toJson, hconditions, hedits]

/-! ## Select lists -/

@[simp] theorem Aggregate.ofJson?_toJson (a : Aggregate) : ofJson? a.toJson = some a := by
  cases a <;> rfl

namespace Aggregation

mutual

theorem ofJsonWithin?_fields : ∀ (a : Aggregation) {n : Nat},
    depth (.object a.fields) ≤ n → ofJsonWithin? n (.object a.fields) = some a
  | ⟨function, argument, alias?, derived⟩, n, hn => by
    simp only [fields, depth, depthFields] at hn
    obtain ⟨n, rfl⟩ : ∃ m, n = m + 1 := ⟨n - 1, by omega⟩
    have hderived := mapM_formAll derived (n := n) (by omega)
    simp (disch := decide) [ofJsonWithin?, fields, asList?_array, hderived]

theorem mapM_formAll : ∀ (as : List Aggregation) {n : Nat},
    depthValues (formAll as) ≤ n → (formAll as).mapM (ofJsonWithin? n) = some as
  | [], _, _ => rfl
  | a :: rest, n, hn => by
    simp only [formAll, depthValues] at hn
    have ha := ofJsonWithin?_fields a (n := n) (by omega)
    have hrest := mapM_formAll rest (n := n) (by omega)
    rw [formAll, List.mapM_cons, ha, hrest]
    rfl

end

theorem ofJsonWithin?_tagged (n : Nat) (tag : String) (fs : List (String × Json)) :
    ofJsonWithin? n (tagged tag fs) = ofJsonWithin? n (.object fs) := by
  cases n with
  | zero => rfl
  | succ n => simp (disch := decide) [ofJsonWithin?, tagged]

theorem ofJson?_tagged (a : Aggregation) (tag : String) :
    ofJson? (tagged tag a.fields) = some a := by
  have hdepth : depth (tagged tag a.fields) = depth (.object a.fields) := by
    simp [tagged, depth, depthFields]
  unfold ofJson?
  rw [hdepth, ofJsonWithin?_tagged]
  exact ofJsonWithin?_fields a (Nat.le_refl _)

end Aggregation

@[simp] theorem SelectItem.ofJson?_toJson (x : SelectItem) : ofJson? x.toJson = some x := by
  cases x with
  | star owner? => simp (disch := decide) [ofJson?, toJson, tagged]
  | common expression alias? => simp (disch := decide) [ofJson?, toJson, tagged]
  | aggregation call =>
    have hcall := call.ofJson?_tagged "aggregation"
    have htype : field? "type" (tagged "aggregation" call.fields) =
        some (.string "aggregation") := field?_here
    simp [ofJson?, toJson, hcall, htype]

/-! ## Sort keys and row limits -/

@[simp] theorem Direction.ofJson?_toJson (x : Direction) : ofJson? x.toJson = some x := by
  cases x <;> rfl

@[simp] theorem OrderItem.ofJson?_toJson (x : OrderItem) : ofJson? x.toJson = some x := by
  simp (disch := decide) [ofJson?, toJson]

@[simp] theorem LimitValue.ofJson?_toJson (v : LimitValue) : ofJson? v.toJson = some v := by
  simp (disch := decide) [ofJson?, toJson]

@[simp] theorem RowLimit.ofJson?_toJson (l : RowLimit) : ofJson? l.toJson = some l := by
  have hvalue : ∀ v? : Option LimitValue,
      optional? LimitValue.ofJson? (some (ofOption LimitValue.toJson v?)) = some v? :=
    fun _ => optional?_ofOption (fun _ => Json.noConfusion) LimitValue.ofJson?_toJson
  simp (disch := decide) [ofJson?, toJson, hvalue]

/-! ## Queries -/

namespace Query

variable {q : Query} {qs : List Query} {n : Nat}

theorem ofJson?_toJson (h : q.findings.IsWhole) (inner : Json) :
    ofJson? (q.toJson inner) = some q := by
  have hfindings := Findings.ofJson?_toJson h
  have hitems := asList?_ofList fun (x : SelectItem) (_ : x ∈ q.items) => x.ofJson?_toJson
  have hgroupBy := asList?_ofList fun (x : OrderItem) (_ : x ∈ q.groupBy) => x.ofJson?_toJson
  have horderBy := asList?_ofList fun (x : OrderItem) (_ : x ∈ q.orderBy) => x.ofJson?_toJson
  have hlimit : optional? RowLimit.ofJson? (some (ofOption RowLimit.toJson q.limit?)) =
      some q.limit? := optional?_ofOption (fun _ => Json.noConfusion) RowLimit.ofJson?_toJson
  simp (disch := decide) [ofJson?, toJson, hfindings, hitems, hgroupBy, horderBy, hlimit]

theorem field?_toJson (q : Query) (inner : Json) :
    (q.toJson inner).field? "sub_query_statement" = some inner := by
  simp (disch := decide) [toJson]

theorem depth_inner_lt (q : Query) (inner : Json) : depth inner < depth (q.toJson inner) := by
  rw [toJson, depth]
  exact Nat.lt_succ_of_le (le_depthFields (f := ("sub_query_statement", inner)) (by simp))

theorem chainOfJson?_cons {fs : List (String × Json)} (hquery : ofJson? (.object fs) = some q)
    (hrest : chainOfJson? n ((Json.object fs).field? "sub_query_statement") = some qs) :
    chainOfJson? (n + 1) (some (.object fs)) = some (q :: qs) := by
  simp [chainOfJson?, hquery, hrest]

/-- A chain is read back to every number of levels that bounds the depth of its form. -/
theorem chainOfJson?_chainToJson (h : ∀ q ∈ qs, q.findings.IsWhole)
    (hn : depth (chainToJson qs) ≤ n) : chainOfJson? n (some (chainToJson qs)) = some qs := by
  induction qs generalizing n with
  | nil => cases n <;> rfl
  | cons q rest ih =>
    rw [chainToJson] at hn ⊢
    have hinner := q.depth_inner_lt (chainToJson rest)
    obtain ⟨n, rfl⟩ : ∃ m, n = m + 1 := ⟨n - 1, by omega⟩
    have hquery := ofJson?_toJson (h q List.mem_cons_self) (chainToJson rest)
    have hrest := ih (fun p hp => h p (List.mem_cons_of_mem q hp)) (n := n) (by omega)
    refine chainOfJson?_cons hquery ?_
    rw [← hrest]
    exact congrArg (chainOfJson? n) (q.field?_toJson (chainToJson rest))

end Query

def SelectStatement.IsWhole (s : SelectStatement) : Prop :=
  s.query.findings.IsWhole ∧ ∀ q ∈ s.inner, q.findings.IsWhole

/-- A SELECT statement without floating point numbers is read back from its JSON form. -/
theorem statement_read_back {s : SelectStatement} (h : s.IsWhole) :
    SelectStatement.ofJson? s.toJson = some s := by
  have hquery := Query.ofJson?_toJson h.1 (Query.chainToJson s.inner)
  have hdepth := s.query.depth_inner_lt (Query.chainToJson s.inner)
  have hinner := Query.chainOfJson?_chainToJson h.2 (Nat.le_of_lt hdepth)
  simp [SelectStatement.ofJson?, SelectStatement.toJson, hquery, Query.field?_toJson, hinner]

def nestedAverage : SelectStatement where
  query :=
    { items := [.aggregation ⟨.avg, "(x)", some "a",
        [⟨.count, "(x)", some "AVG_DERIVED_COUNT_0", []⟩, ⟨.sum, "(x)", none, []⟩]⟩]
      orderBy := [.ofIndex 1 .descending .ascending]
      limit? := some ⟨none, some ⟨some (-5), none, false⟩⟩ }
  inner :=
    [{ findings :=
        { kind := .dql
          tables := ⟨[⟨"t_order", some "o"⟩]⟩
          conditions := ⟨[⟨[⟨⟨"user_id", "t_order"⟩, .oneOf,
            [.number (.integer 1), .placeholder 0, .text "a\"\n"]⟩]⟩]⟩
          edits := [.table 14 "t_order", .items 9 ["x AS ORDER_BY_DERIVED_0 "] true]
          placeholders := 1 }
       containsStar := true
       items := [.star none, .common "x" none] }]

theorem nestedAverage_read_back : nestedAverage.IsWhole ∧
    SelectStatement.ofJson? nestedAverage.toJson = some nestedAverage := by
  have hwhole : nestedAverage.IsWhole := by
    simp [nestedAverage, SelectStatement.IsWhole, Findings.IsWhole, Conditions.empty,
      Expression.IsWhole]
  exact ⟨hwhole, statement_read_back hwhole⟩

end SqlFront
