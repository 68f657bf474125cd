import LayeredSql.Proofs.PlanDocuments
import Mathlib.Logic.Basic

/-!
# Unknown members of plan documents

A record in a plan document may hold a member that it does not know. The records of the plan, of its
source and of a term refuse it, and with them the whole document. The records of a step, a named term
and an order term pass over it, whatever it holds and wherever it stands, and the plan stays the same.

The argument follows the way from the plan down to the record: each decoder on it answers as the one
below it does.
-/

namespace LayeredSql

/-! ### Fields and members -/

namespace Datum

variable {strictness : Strictness} {names : List String} {front back : List (String × Datum)}
  {name other : String}

theorem length_valuesOf (members : List (String × Datum)) (name : String) :
    (valuesOf members name).length = (members.map Prod.fst).count name := by
  rw [valuesOf, List.length_map, List.count, List.countP_map, List.countP_eq_length_filter]
  rfl

theorem valuesOf_insert_of_ne (h : name ≠ other) (v : Datum) :
    valuesOf (front ++ (name, v) :: back) other = valuesOf (front ++ back) other := by
  simp [valuesOf, h]

theorem valuesOf_replace_of_ne (h : name ≠ other) (v v' : Datum) :
    valuesOf (front ++ (name, v') :: back) other = valuesOf (front ++ (name, v) :: back) other := by
  rw [valuesOf_insert_of_ne h, valuesOf_insert_of_ne h]

/-- A member that is given once has its value. -/
theorem head?_valuesOf {v : Datum}
    (h : ((front ++ (name, v) :: back).map Prod.fst).count name ≤ 1) :
    (valuesOf (front ++ (name, v) :: back) name).head? = some v := by
  have values : valuesOf (front ++ (name, v) :: back) name =
      valuesOf front name ++ v :: valuesOf back name := by simp [valuesOf]
  rw [← length_valuesOf, values, List.length_append, List.length_cons] at h
  have none : valuesOf front name = [] := List.length_eq_zero_iff.1 (by omega)
  rw [values, none]
  rfl

/-- The fields are found if each is given at most once and, in a strict record, no other name is. -/
theorem memberFields?_eq_ite (strictness : Strictness) (names : List String)
    (members : List (String × Datum)) :
    memberFields? strictness names members =
      if (strictness = .strict → ∀ name ∈ members.map Prod.fst, name ∈ names) ∧
        ∀ name ∈ names, (members.map Prod.fst).count name ≤ 1 then
        some (names.map fun name => (valuesOf members name).head?)
      else none := by
  simp only [memberFields?, length_valuesOf]
  by_cases h : strictness = .strict → ∀ name ∈ members.map Prod.fst, name ∈ names
  · rw [if_neg (by simpa using h)]
    simp only [List.all_eq_true, decide_eq_true_eq, and_iff_right h]
  · rw [if_pos (by simpa using h), if_neg (fun found => h found.1)]

theorem memberFields?_lenient_insert (h : name ∉ names) (v : Datum) :
    memberFields? .lenient names (front ++ (name, v) :: back) =
      memberFields? .lenient names (front ++ back) := by
  have apart : ∀ other ∈ names, name ≠ other := fun other ho he => h (he ▸ ho)
  have fields : names.map (fun other => (valuesOf (front ++ (name, v) :: back) other).head?) =
      names.map fun other => (valuesOf (front ++ back) other).head? :=
    List.map_congr_left fun other ho => by rw [valuesOf_insert_of_ne (apart other ho)]
  have counts : (∀ other ∈ names, ((front ++ (name, v) :: back).map Prod.fst).count other ≤ 1) ↔
      ∀ other ∈ names, ((front ++ back).map Prod.fst).count other ≤ 1 := by
    refine forall₂_congr fun other ho => ?_
    rw [← length_valuesOf, ← length_valuesOf, valuesOf_insert_of_ne (apart other ho)]
  simp only [memberFields?_eq_ite, counts, fields, reduceCtorEq, false_imp_iff, true_and]

theorem memberFields?_strict_insert (h : name ∉ names) (v : Datum) :
    memberFields? .strict names (front ++ (name, v) :: back) = none := by
  rw [memberFields?_eq_ite, if_neg]
  intro known
  exact h (known.1 rfl name (by simp))

/-- Another value under a name of the record changes that field and no other. -/
theorem memberFields?_replace {v : Datum} {fields : List (Option Datum)} (hn : name ∈ names)
    (h : memberFields? strictness names (front ++ (name, v) :: back) = some fields) :
    ∃ get : String → Option Datum,
      fields = names.map (fun other => if other = name then some v else get other) ∧
      ∀ v', memberFields? strictness names (front ++ (name, v') :: back) =
        some (names.map fun other => if other = name then some v' else get other) := by
  rw [memberFields?_eq_ite, Option.ite_none_right_eq_some] at h
  obtain ⟨fits, hf⟩ := h
  have values : ∀ v', names.map (fun other => (valuesOf (front ++ (name, v') :: back) other).head?) =
      names.map fun other => if other = name then some v' else
        (valuesOf (front ++ (name, v) :: back) other).head? := by
    intro v'
    refine List.map_congr_left fun other _ => ?_
    split
    · subst other
      exact head?_valuesOf (by simpa using fits.2 name hn)
    · rw [valuesOf_replace_of_ne (Ne.symm ‹_›)]
  refine ⟨fun other => (valuesOf (front ++ (name, v) :: back) other).head?, ?_, fun v' => ?_⟩
  · rw [← values v]
    exact (Option.some.inj hf).symm
  · rw [memberFields?_eq_ite, if_pos (by simpa using fits), values v']

end Datum

/-! ### Answers to an unknown member -/

/-- What was read before is read again, or nothing is where the member is refused. -/
def Reacts {α : Type} (refuses : Bool) (before after : Option α) : Prop :=
  ∀ a, before = some a → after = if refuses then none else some a

namespace Reacts

variable {α β : Type} {refuses : Bool} {before after : Option α}

theorem bind_left (h : Reacts refuses before after) (f : α → Option β) :
    Reacts refuses (before >>= f) (after >>= f) := by
  intro b hb
  obtain ⟨a, ha, hf⟩ := Option.bind_eq_some_iff.1 hb
  rw [h a ha]
  cases refuses with
  | false => exact hf
  | true => rfl

theorem bind_right {x : Option β} {f g : β → Option α} (h : ∀ b, Reacts refuses (f b) (g b)) :
    Reacts refuses (x >>= f) (x >>= g) := by
  intro a ha
  obtain ⟨b, rfl, hf⟩ := Option.bind_eq_some_iff.1 ha
  exact h b a hf

theorem mapM {read : Datum → Option α} {v v' : Datum} (h : Reacts refuses (read v) (read v'))
    (items rest : List Datum) :
    Reacts refuses ((items ++ v :: rest).mapM read) ((items ++ v' :: rest).mapM read) := by
  rw [List.mapM_append, List.mapM_append, List.mapM_cons, List.mapM_cons]
  exact bind_right fun _ => (h.bind_left _).bind_left _

/-- A field that changes its answer changes that of the record. -/
theorem memberFields {strictness : Datum.Strictness} {names : List String} {name : String}
    {v v' : Datum} {f : List (Option Datum) → Option α} (hn : name ∈ names)
    (h : ∀ get : String → Option Datum,
      Reacts refuses (f (names.map fun other => if other = name then some v else get other))
        (f (names.map fun other => if other = name then some v' else get other)))
    (front back : List (String × Datum)) :
    Reacts refuses (Datum.memberFields? strictness names (front ++ (name, v) :: back) >>= f)
      (Datum.memberFields? strictness names (front ++ (name, v') :: back) >>= f) := by
  intro a ha
  obtain ⟨fields, hf, hr⟩ := Option.bind_eq_some_iff.1 ha
  obtain ⟨get, rfl, same⟩ := Datum.memberFields?_replace hn hf
  rw [same v']
  exact h get a hr

theorem strict_insert {names : List String} {name : String} {front back : List (String × Datum)}
    (h : name ∉ names) (v : Datum) (before : Option α) (f : List (Option Datum) → Option α) :
    Reacts true before (Datum.memberFields? .strict names (front ++ (name, v) :: back) >>= f) := by
  intro _ _
  rw [Datum.memberFields?_strict_insert h]
  rfl

theorem lenient_insert {names : List String} {name : String} {front back : List (String × Datum)}
    (h : name ∉ names) (v : Datum) (f : List (Option Datum) → Option α) :
    Reacts false (Datum.memberFields? .lenient names (front ++ back) >>= f)
      (Datum.memberFields? .lenient names (front ++ (name, v) :: back) >>= f) := by
  intro a ha
  rw [Datum.memberFields?_lenient_insert h, ha]
  rfl

end Reacts

/-! ### The parts of a document -/

/-- What the data in a place of a plan document stand for. -/
inductive Part where
  | plan
  | source
  | step
  | namedTerm
  | orderTerm
  | term
deriving DecidableEq, Repr

/-- What the value of a member stands for: a part, or a list of parts of one kind. -/
inductive Content where
  | one (part : Part)
  | many (part : Part)

namespace Part

def isStrict : Part → Bool
  | plan | source | term => true
  | step | namedTerm | orderTerm => false

def Data : Part → Type
  | plan => Plan
  | source => PlanSource
  | step => Step
  | namedTerm => NamedTerm
  | orderTerm => OrderTerm
  | term => Term

def decode : (part : Part) → Datum → Option part.Data
  | plan => Plan.ofDatum?
  | source => PlanSource.ofDatum?
  | step => Step.ofDatum?
  | namedTerm => NamedTerm.ofDatum?
  | orderTerm => OrderTerm.ofDatum?
  | term => Term.ofDatum?

/-- The fields of a step of the given kind. -/
def stepFields : String → List String
  | "set_column" => ["name", "expr"]
  | "drop_column" => ["name"]
  | "select" => ["columns"]
  | "filter" => ["condition"]
  | "group_by" => ["select", "keys"]
  | "deduplicate" => ["select", "keys", "order"]
  | _ => []

/-- The names that a record of the part knows. A term is its single member, and knows none besides. -/
def known : Part → List (String × Datum) → List String
  | plan, _ => ["source", "steps"]
  | source, _ => PlanSource.fieldNames
  | step, members =>
    match Datum.valuesOf members "op" with
    | [.text kind] => "op" :: stepFields kind
    | _ => ["op"]
  | namedTerm, _ => ["name", "expr"]
  | orderTerm, _ => ["expr", "function"]
  | term, _ => []

/-- What stands under a member of a record of the part. In a step it depends on the kind, which is the
value under `op`. -/
inductive Holds : Part → (tags : List Datum) → (name : String) → Content → Prop
  | source (tags) : Holds plan tags "source" (.one source)
  | steps (tags) : Holds plan tags "steps" (.many step)
  | namedExpr (tags) : Holds namedTerm tags "expr" (.one term)
  | orderExpr (tags) : Holds orderTerm tags "expr" (.one term)
  | setColumn : Holds step [.text "set_column"] "expr" (.one term)
  | select : Holds step [.text "select"] "columns" (.many namedTerm)
  | filter : Holds step [.text "filter"] "condition" (.one term)
  | groupSelect : Holds step [.text "group_by"] "select" (.many namedTerm)
  | groupKeys : Holds step [.text "group_by"] "keys" (.many term)
  | deduplicateSelect : Holds step [.text "deduplicate"] "select" (.many namedTerm)
  | deduplicateKeys : Holds step [.text "deduplicate"] "keys" (.many term)
  | deduplicateOrder : Holds step [.text "deduplicate"] "order" (.many orderTerm)

/-- The second data are the first, which stand for `outer`, with one member more: a record somewhere in
them, which stands for `inner`, got a member that it does not know. -/
inductive Gains : (outer : Part) → Datum → (inner : Part) → Datum → Prop
  | here {part : Part} {front back : List (String × Datum)} {name : String}
      (h : name ∉ part.known (front ++ back)) (v : Datum) :
      Gains part (.record (front ++ back)) part (.record (front ++ (name, v) :: back))
  | member {outer part inner : Part} {front back : List (String × Datum)} {name : String}
      {v v' : Datum} (h : outer.Holds (Datum.valuesOf (front ++ (name, v) :: back) "op") name (.one part))
      (hv : Gains part v inner v') :
      Gains outer (.record (front ++ (name, v) :: back)) inner (.record (front ++ (name, v') :: back))
  | item {outer part inner : Part} {front back : List (String × Datum)} {name : String}
      {items rest : List Datum} {v v' : Datum}
      (h : outer.Holds (Datum.valuesOf (front ++ (name, .list (items ++ v :: rest)) :: back) "op")
        name (.many part))
      (hv : Gains part v inner v') :
      Gains outer (.record (front ++ (name, .list (items ++ v :: rest)) :: back)) inner
        (.record (front ++ (name, .list (items ++ v' :: rest)) :: back))

end Part

namespace Content

def Data : Content → Type
  | one part => part.Data
  | many part => List part.Data

def decode : (content : Content) → Datum → Option content.Data
  | one part => part.decode
  | many part => fun v => Datum.listField part.decode (some v)

end Content

/-! ### Terms and steps -/

theorem Term.length_of_ofDatum? {members : List (String × Datum)} {t : Term}
    (h : Term.ofDatum? (.record members) = some t) : members.length = 1 := by
  unfold Term.ofDatum? at h
  split at h <;> simp_all

namespace Step

theorem ofDatum?_of_tag {members : List (String × Datum)} {kind : String}
    (h : Datum.valuesOf members "op" = [.text kind]) :
    Step.ofDatum? (.record members) = Step.ofFields? kind fun names =>
      Datum.memberFields? .lenient names (members.filter fun member => member.1 != "op") := by
  simp [Step.ofDatum?, h]

theorem filter_tag {name : String} (h : name ≠ "op") (front back : List (String × Datum))
    (v : Datum) :
    (front ++ (name, v) :: back).filter (fun member => member.1 != "op") =
      front.filter (fun member => member.1 != "op") ++
        (name, v) :: back.filter fun member => member.1 != "op" := by
  simp [h]

theorem reacts_of_fields {kind name : String} {refuses : Bool} {front back : List (String × Datum)}
    {v v' : Datum} (ht : Datum.valuesOf (front ++ (name, v) :: back) "op" = [.text kind])
    (hn : name ≠ "op")
    (h : ∀ front back, Reacts refuses
      (Step.ofFields? kind fun names =>
        Datum.memberFields? .lenient names (front ++ (name, v) :: back))
      (Step.ofFields? kind fun names =>
        Datum.memberFields? .lenient names (front ++ (name, v') :: back))) :
    Reacts refuses (Step.ofDatum? (.record (front ++ (name, v) :: back)))
      (Step.ofDatum? (.record (front ++ (name, v') :: back))) := by
  have ht' := (Datum.valuesOf_replace_of_ne hn v v').trans ht
  rw [ofDatum?_of_tag ht, ofDatum?_of_tag ht', filter_tag hn, filter_tag hn]
  exact h _ _

theorem ofFields?_congr {kind : String} {fields fields' : List String → Option (List (Option Datum))}
    (h : fields (Part.stepFields kind) = fields' (Part.stepFields kind)) :
    Step.ofFields? kind fields = Step.ofFields? kind fields' := by
  unfold Step.ofFields?
  split <;> simp_all [Part.stepFields]

theorem ofDatum?_insert {front back : List (String × Datum)} {name : String}
    (h : name ∉ Part.step.known (front ++ back)) (v : Datum) :
    Step.ofDatum? (.record (front ++ (name, v) :: back)) =
      Step.ofDatum? (.record (front ++ back)) := by
  rw [Part.known] at h
  split at h
  · rename_i kind ht
    rw [List.mem_cons, not_or] at h
    have ht' := (Datum.valuesOf_insert_of_ne h.1 v).trans ht
    rw [ofDatum?_of_tag ht, ofDatum?_of_tag ht', filter_tag h.1, List.filter_append]
    exact ofFields?_congr (Datum.memberFields?_lenient_insert h.2 v)
  · -- without a tag there is no step, before and after
    rw [List.mem_singleton] at h
    simp only [Step.ofDatum?, Datum.valuesOf_insert_of_ne h v]

end Step

/-! ### Documents -/

namespace Part

/-- A record answers to another value of a member as the decoder of that value does. -/
theorem Holds.reacts {outer : Part} {tags : List Datum} {name : String} {content : Content}
    {refuses : Bool} {front back : List (String × Datum)} {v v' : Datum}
    (h : outer.Holds tags name content) (ht : Datum.valuesOf (front ++ (name, v) :: back) "op" = tags)
    (hv : Reacts refuses (content.decode v) (content.decode v')) :
    Reacts refuses (outer.decode (.record (front ++ (name, v) :: back)))
      (outer.decode (.record (front ++ (name, v') :: back))) := by
  cases h with
  | source | orderExpr =>
    refine Reacts.memberFields (by simp) (fun get => ?_) front back
    simp only [List.map_cons, List.map_nil, String.reduceEq, if_true, if_false]
    exact hv.bind_left _
  | steps | namedExpr =>
    refine Reacts.memberFields (by simp) (fun get => ?_) front back
    simp only [List.map_cons, List.map_nil, String.reduceEq, if_true, if_false]
    exact Reacts.bind_right fun _ => hv.bind_left _
  | select | filter | groupSelect | deduplicateSelect =>
    refine Step.reacts_of_fields ht (by decide) (Reacts.memberFields (by simp) fun get => ?_)
    simp only [List.map_cons, List.map_nil, String.reduceEq, if_true, if_false]
    exact hv.bind_left _
  | setColumn | groupKeys | deduplicateKeys =>
    refine Step.reacts_of_fields ht (by decide) (Reacts.memberFields (by simp) fun get => ?_)
    simp only [List.map_cons, List.map_nil, String.reduceEq, if_true, if_false]
    exact Reacts.bind_right fun _ => hv.bind_left _
  | deduplicateOrder =>
    refine Step.reacts_of_fields ht (by decide) (Reacts.memberFields (by simp) fun get => ?_)
    simp only [List.map_cons, List.map_nil, String.reduceEq, if_true, if_false]
    exact Reacts.bind_right fun _ => Reacts.bind_right fun _ => hv.bind_left _

theorem reacts_insert {part : Part} {front back : List (String × Datum)} {name : String}
    (h : name ∉ part.known (front ++ back)) (v : Datum) :
    Reacts part.isStrict (part.decode (.record (front ++ back)))
      (part.decode (.record (front ++ (name, v) :: back))) := by
  cases part with
  | plan | source => exact Reacts.strict_insert h v _ _
  | step => exact fun _ ht => (Step.ofDatum?_insert h v).trans ht
  | namedTerm | orderTerm => exact Reacts.lenient_insert h v _
  | term =>
    intro t ht
    have one := Term.length_of_ofDatum? ht
    show Term.ofDatum? _ = none
    cases again : Term.ofDatum? (.record (front ++ (name, v) :: back)) with
    | none => rfl
    | some u =>
      have two := Term.length_of_ofDatum? again
      rw [List.length_append] at one two
      rw [List.length_cons] at two
      omega

theorem Gains.reacts {outer inner : Part} {v v' : Datum} (h : Gains outer v inner v') :
    Reacts inner.isStrict (outer.decode v) (outer.decode v') := by
  induction h with
  | here h v => exact reacts_insert h v
  | member h _ ih => exact h.reacts rfl ih
  | item h _ ih => exact h.reacts rfl (ih.mapM _ _)

/-- Added anywhere in a document that is a plan, an unknown member of the plan, its source or a term
makes it none; one of a step, a named term or an order term leaves the plan as it is. -/
theorem unknown_member_in_document {text text' : String} {v v' : Datum} {part : Part} {p : Plan}
    (hv : Datum.Json.parse text = some v) (hv' : Datum.Json.parse text' = some v')
    (hg : Gains plan v part v') (hp : Plan.parse .json text = .ok p) :
    (part = plan ∨ part = source ∨ part = term →
      Plan.parse .json text' = .error (.planDocument .json)) ∧
    (part = step ∨ part = namedTerm ∨ part = orderTerm → Plan.parse .json text' = .ok p) := by
  have read : Plan.ofDatum? v = some p := by
    rw [Plan.parse, Plan.parse?, hv, Option.bind_some] at hp
    cases ho : Plan.ofDatum? v with
    | none => simp [ho] at hp
    | some q => simpa [ho] using hp
  have again : Plan.parse? .json text' = if part.isStrict then none else some p := by
    rw [Plan.parse?, hv']
    exact hg.reacts p read
  rw [Plan.parse, again]
  constructor
  · rintro (rfl | rfl | rfl) <;> rfl
  · rintro (rfl | rfl | rfl) <;> rfl

/-- An order is passed over in front of the tag of a step that groups, and a column beside the text of
its key spoils the document. -/
theorem unknown_member_in_document_grouped :
    ∃ (p : Plan) (text lenient strict : String) (v v' v'' : Datum),
      p = ⟨⟨none, some "d", "t", "n", ["a"]⟩, [.groupBy [] [.sql "a"]]⟩ ∧
      Datum.Json.parse text = some v ∧ Datum.Json.parse lenient = some v' ∧
      Datum.Json.parse strict = some v'' ∧ Gains plan v step v' ∧ Gains plan v term v'' ∧
      Plan.parse .json text = .ok p ∧ Plan.parse .json lenient = .ok p ∧
      Plan.parse .json strict = .error (.planDocument .json) := by
  obtain ⟨p, hp⟩ : ∃ p : Plan,
      p = ⟨⟨none, some "d", "t", "n", ["a"]⟩, [.groupBy [] [.sql "a"]]⟩ := ⟨_, rfl⟩
  have written := p.writtenAs_pretty
  have passed : ∃ v', Datum.Json.Plain 127 v' ∧ Gains plan p.toDatum step v' := by
    refine ⟨.record ([("source", p.source.toDatum)] ++ ("steps", .list ([] ++ .record ([] ++
      ("order", .list []) :: [("op", .text "group_by"), ("select", .list []),
        ("keys", .list [.record [("sql", .text "a")]])]) :: [])) :: []), ?_, ?_⟩
    · simp [Datum.Json.plain_record_iff, Datum.Json.plain_list_iff, Datum.Json.plain_source,
        Datum.Json.Plain.text]
    · rw [show p.toDatum = .record ([("source", p.source.toDatum)] ++ ("steps", .list ([] ++
        .record ([] ++ [("op", .text "group_by"), ("select", .list []),
          ("keys", .list [.record [("sql", .text "a")]])]) :: [])) :: []) by rw [hp]; rfl]
      refine .item (.steps _) (.here ?_ _)
      decide +kernel
  have refused : ∃ v', Datum.Json.Plain 127 v' ∧ Gains plan p.toDatum term v' := by
    refine ⟨.record ([("source", p.source.toDatum)] ++ ("steps", .list ([] ++ .record
      ([("op", .text "group_by"), ("select", .list [])] ++ ("keys", .list ([] ++
        .record ([("sql", .text "a")] ++ ("column", .text "a") :: []) :: [])) :: []) :: [])) :: []),
      ?_, ?_⟩
    · simp [Datum.Json.plain_record_iff, Datum.Json.plain_list_iff, Datum.Json.plain_source,
        Datum.Json.Plain.text]
    · rw [show p.toDatum = .record ([("source", p.source.toDatum)] ++ ("steps", .list ([] ++ .record
        ([("op", .text "group_by"), ("select", .list [])] ++ ("keys", .list ([] ++
          .record ([("sql", .text "a")] ++ []) :: [])) :: []) :: [])) :: []) by rw [hp]; rfl]
      exact .item (.steps _) (.item .groupKeys (.here (by simp [known]) _))
  obtain ⟨v', plain', gains'⟩ := passed
  obtain ⟨v'', plain'', gains''⟩ := refused
  have read' := plain'.parse_pretty
  have read'' := plain''.parse_pretty
  exact ⟨p, _, _, _, _, v', v'', hp, written, read', read'', gains', gains'', written.parse_eq,
    (unknown_member_in_document written read' gains' written.parse_eq).2 (.inl rfl),
    (unknown_member_in_document written read'' gains'' written.parse_eq).1 (.inr (.inr rfl))⟩

end Part

end LayeredSql
