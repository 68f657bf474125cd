import LayeredSql.Command

/-!
# Words behind a command

Two commands take a plan, and one of them has an option that the other does not know. Apart from that
option they read the same words alike, so that the words name one target for both or end both for the
same reason.
-/

namespace LayeredSql.Command

/-! ### One more option

A command that knows one option more reads the same words alike, up to the first mention of that
option. -/

def Ending.IsOf (name : OptionName) : Ending → Prop
  | value other _ => other = name
  | pending other => other = name
  | done | unknown => False

/-- How options read when `name` is not known, and how when it is. -/
inductive ReadWith (name : OptionName) : List OptionName × Ending → List OptionName × Ending → Prop
  | same (flags : List OptionName) (ending : Ending) :
    name ∉ flags → ¬ending.IsOf name → ReadWith name (flags, ending) (flags, ending)
  | mention (flags : List OptionName) (ending : Ending) :
    name ∉ flags → ending.IsOf name → ReadWith name (flags, .unknown) (flags, ending)

theorem ReadWith.flag {name other : OptionName} {old new : List OptionName × Ending}
    (h : ReadWith name old new) (distinct : other ≠ name) :
    ReadWith name (other :: old.1, old.2) (other :: new.1, new.2) := by
  have fresh {flags : List OptionName} (hf : name ∉ flags) : name ∉ other :: flags := by
    rw [List.mem_cons, not_or]
    exact ⟨distinct.symm, hf⟩
  cases h with
  | same flags ending hf he => exact .same _ _ (fresh hf) he
  | mention flags ending hf he => exact .mention _ _ (fresh hf) he

section OneMore

variable {known : List OptionName} {name : OptionName}

theorem find?_known_append (new : name ∉ known) (p : OptionName → Bool) :
    (∃ other, other ≠ name ∧ known.find? p = some other ∧ (known ++ [name]).find? p = some other) ∨
    known.find? p = none ∧
      ((known ++ [name]).find? p = some name ∨ (known ++ [name]).find? p = none) := by
  rw [List.find?_append]
  cases found : known.find? p with
  | some other =>
    have distinct : other ≠ name := by
      rintro rfl
      exact new (List.mem_of_find?_eq_some found)
    exact Or.inl ⟨other, distinct, rfl, rfl⟩
  | none =>
    rw [Option.none_or, List.find?_singleton]
    by_cases hp : p name = true <;> simp [hp]

theorem readWith_readCluster (takes : name.takesValue = true) (new : name ∉ known) (cs : List Char) :
    ReadWith name (readCluster known cs) (readCluster (known ++ [name]) cs) := by
  induction cs with
  | nil => exact .same [] .done (by simp) id
  | cons c rest ih =>
    rw [readCluster, readCluster]
    rcases find?_known_append new fun name => name.short = c with
      ⟨other, distinct, old, found⟩ | ⟨old, found | found⟩
    · rw [old, found]
      simp only
      split
      · split <;> exact .same [] _ (by simp) distinct
      · exact ih.flag distinct
    · rw [old, found]
      simp only [takes, if_true]
      split <;> exact .mention [] _ (by simp) rfl
    · rw [old, found]
      exact .same [] .unknown (by simp) id

theorem readWith_readLong (takes : name.takesValue = true) (new : name ∉ known) (cs : List Char) :
    ReadWith name (readLong known cs) (readLong (known ++ [name]) cs) := by
  rw [readLong, readLong]
  rcases find?_known_append new fun name => name.long = String.ofList (cs.takeWhile (· ≠ '=')) with
    ⟨other, distinct, old, found⟩ | ⟨old, found | found⟩
  · rw [old, found]
    simp only
    split
    · exact .same [] _ (by simp) distinct
    · exact .same [other] _ (by simpa using distinct.symm) id
    · exact .same [] _ (by simp) distinct
    · exact .same [] _ (by simp) id
  · rw [old, found]
    simp only [takes]
    cases cs.dropWhile (· ≠ '=') with
    | nil => exact .mention [] _ (by simp) rfl
    | cons c v => exact .mention [] _ (by simp) rfl
  · rw [old, found]
    exact .same [] .unknown (by simp) id

theorem Word.read_known_append (takes : name.takesValue = true) (new : name ∉ known) (word : String) :
    (∃ text, Word.read known word = .operand text ∧
      Word.read (known ++ [name]) word = .operand text) ∨
    (Word.read known word = .endOfOptions ∧ Word.read (known ++ [name]) word = .endOfOptions) ∨
    ∃ before after, ReadWith name before after ∧
      Word.read known word = .options before.1 before.2 ∧
      Word.read (known ++ [name]) word = .options after.1 after.2 := by
  unfold Word.read
  split
  · exact Or.inr (Or.inl ⟨rfl, rfl⟩)
  · exact Or.inr (Or.inr ⟨_, _, readWith_readLong takes new _, rfl, rfl⟩)
  · rename_i c cs _ _ _
    exact Or.inr (Or.inr ⟨_, _, readWith_readCluster takes new (c :: cs), rfl, rfl⟩)
  · exact Or.inl ⟨_, rfl, rfl⟩

end OneMore

namespace Given

def withFirst (name : OptionName) (value : String) (g : Given) : Given :=
  { g with options := (name, value) :: g.options }

theorem value?_withFirst {name other : OptionName} (value : String) (g : Given)
    (h : other ≠ name) : (g.withFirst name value).value? other = g.value? other := by
  have different : (other == name) = false := by simpa using h
  simp [value?, withFirst, List.lookup_cons, different]

theorem value?_withFirst_self (name : OptionName) (value : String) (g : Given) :
    (g.withFirst name value).value? name = some value := by
  simp [value?, withFirst]

section WithFirst

variable {check : OptionName → String → Bool} {name : OptionName} {value : String} {g : Given}

theorem put_withFirst {other : OptionName} (h : other ≠ name) (v : String) :
    (g.withFirst name value).put check other v = (g.put check other v).map (withFirst name value) := by
  unfold put
  rw [value?_withFirst value g h]
  split
  · rfl
  split
  · rfl
  split <;> rfl

theorem put_withFirst_self (takes : name.takesValue = true) (v : String) :
    (g.withFirst name value).put check name v = .error .usage := by
  unfold put
  rw [value?_withFirst_self]
  cases name with
  | help => cases takes
  | version => cases takes
  | _ => rfl

theorem foldlM_withFirst {α : Type} {f : Given → α → Except Stop Given} (xs : List α)
    (h : ∀ g, ∀ x ∈ xs, f (g.withFirst name value) x = (f g x).map (withFirst name value)) :
    xs.foldlM f (g.withFirst name value) = (xs.foldlM f g).map (withFirst name value) := by
  induction xs generalizing g with
  | nil => rfl
  | cons x xs ih =>
    rw [List.foldlM_cons, List.foldlM_cons, h g x (by simp)]
    cases f g x with
    | error stop => rfl
    | ok next => exact ih fun g y hy => h g y (by simp [hy])

theorem putFlags_withFirst {flags : List OptionName} (h : name ∉ flags) :
    (g.withFirst name value).putFlags check flags =
      (g.putFlags check flags).map (withFirst name value) := by
  refine foldlM_withFirst flags fun g other hm => put_withFirst ?_ ""
  rintro rfl
  exact h hm

theorem putOperand_withFirst (kind : OperandKind) (text : String) :
    (g.withFirst name value).putOperand kind text =
      (g.putOperand kind text).map (withFirst name value) := by
  unfold putOperand
  show (if kind.admits g.operands text then _ else _) = _
  split <;> rfl

/-- A command with one option more, which is given in front, takes the words that the command without it
takes, and ends at the others for the same reason. -/
theorem collect_withFirst {known : List OptionName} (kind : OperandKind)
    (takes : name.takesValue = true) (new : name ∉ known) (words : List String) (g : Given) :
    (g.withFirst name value).collect ⟨known ++ [name], kind⟩ check words =
      (g.collect ⟨known, kind⟩ check words).map (withFirst name value) := by
  match words with
  | [] => rfl
  | word :: rest =>
    rw [collect, collect]
    rcases Word.read_known_append takes new word with
      ⟨text, before, after⟩ | ⟨before, after⟩ | ⟨_, _, reads, before, after⟩
    · simp only [before, after, putOperand_withFirst]
      cases g.putOperand kind text with
      | error stop => rfl
      | ok next => exact collect_withFirst kind takes new rest next
    · simp only [before, after]
      exact foldlM_withFirst rest fun g text _ => putOperand_withFirst kind text
    · -- the word is read alike, or it mentions the option, which is refused on both sides: as unknown
      -- on the right, and on the left as given before
      cases reads with
      | same flags ending hf he =>
        simp only [before, after, putFlags_withFirst hf]
        cases g.putFlags check flags with
        | error stop => rfl
        | ok next =>
          cases ending with
          | done => exact collect_withFirst kind takes new rest next
          | unknown => rfl
          | value other v =>
            simp only [Except.map, put_withFirst he]
            cases next.put check other v with
            | error stop => rfl
            | ok last => exact collect_withFirst kind takes new rest last
          | pending other =>
            cases rest with
            | nil => rfl
            | cons v behind =>
              simp only [Except.map, put_withFirst he]
              split
              · cases next.put check other v with
                | error stop => rfl
                | ok last => exact collect_withFirst kind takes new behind last
              · rfl
      | mention flags ending hf he =>
        simp only [before, after, putFlags_withFirst hf]
        cases g.putFlags check flags with
        | error stop => rfl
        | ok next =>
          cases ending with
          | done => exact he.elim
          | unknown => exact he.elim
          | value other v =>
            cases he
            simp only [Except.map, put_withFirst_self takes]
          | pending other =>
            cases he
            cases rest with
            | nil => rfl
            | cons v behind =>
              simp only [Except.map, put_withFirst_self takes, ite_self]
termination_by words.length

end WithFirst

end Given

/-! ### Targets -/

section Requests

variable {environment : String → Option String}

def targetOfWords (environment : String → Option String) (args : List String) :
    Except Stop Target := do
  targetOf environment (← Given.empty.collect lineageForm isProperValue args)

theorem targetOf_withFirst_format (format : String) (g : Given) :
    targetOf environment (g.withFirst .format format) = targetOf environment g := by
  unfold targetOf dialectOf
  rw [Given.value?_withFirst format g (by decide), Given.value?_withFirst format g (by decide)]
  rfl

theorem readFront_command {command : String} (h : Word.read knownInFront command = .operand command)
    (words : List String) :
    readFront knownInFront .empty (command :: words) = .ok (command, words) := by
  rw [readFront, h]

theorem parse_lineage (args : List String) :
    parse environment ("lineage" :: args) = (targetOfWords environment args).map .lineage := by
  rw [parse, readFront_command rfl]
  show (Given.empty.collect lineageForm isProperValue args >>= fun g =>
    targetOf environment g >>= fun target => pure (Request.lineage target)) = _
  rw [targetOfWords]
  cases Given.empty.collect lineageForm isProperValue args with
  | error stop => rfl
  | ok g =>
    show (targetOf environment g >>= _) = (targetOf environment g).map _
    cases targetOf environment g <;> rfl

theorem collect_format {name : String} {format : OutputFormat}
    (h : OutputFormat.ofName? name = some format) (args : List String) :
    Given.empty.collect compileForm isProperValue ("--format" :: name :: args) =
      (Given.empty.collect lineageForm isProperValue args).map (Given.withFirst .format name) := by
  have word : Word.read compileForm.options "--format" = .options [] (.pending .format) := rfl
  have fits : isValueWord name = true ∧ isProperValue .format name = true := by
    refine ⟨?_, by rw [isProperValue, h]; rfl⟩
    unfold OutputFormat.ofName? at h
    split at h
    · rfl
    · rfl
    · cases h
  have put : Given.empty.put isProperValue .format name = .ok (Given.empty.withFirst .format name) := by
    simp [Given.put, Given.empty, Given.value?, Given.withFirst, fits.2]
  rw [Given.collect, word]
  simp only [Given.putFlags, List.foldlM_nil, pure, Except.pure, fits.1, if_true, put]
  have more : compileForm = ⟨lineageForm.options ++ [.format], .path⟩ := rfl
  rw [more]
  refine Given.collect_withFirst .path ?_ ?_ args .empty
  · rfl
  · decide

theorem parse_compile {name : String} {format : OutputFormat}
    (h : OutputFormat.ofName? name = some format) (args : List String) :
    parse environment ("compile" :: "--format" :: name :: args) =
      (targetOfWords environment args).map fun target => .compile target format := by
  rw [parse, readFront_command rfl]
  show (Given.empty.collect compileForm isProperValue ("--format" :: name :: args) >>= fun g =>
    targetOf environment g >>= fun target => pure (Request.compile target
      (((g.value? .format).bind OutputFormat.ofName?).getD .sql))) = _
  rw [collect_format h, targetOfWords]
  cases Given.empty.collect lineageForm isProperValue args with
  | error stop => rfl
  | ok g =>
    show (targetOf environment (g.withFirst .format name) >>= fun target => pure (Request.compile target
      ((((g.withFirst .format name).value? .format).bind OutputFormat.ofName?).getD .sql))) =
        (targetOf environment g).map _
    rw [targetOf_withFirst_format, Given.value?_withFirst_self, Option.bind_some, h]
    cases targetOf environment g <;> rfl

end Requests

end LayeredSql.Command
