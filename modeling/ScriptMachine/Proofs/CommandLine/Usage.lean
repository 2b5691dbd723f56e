import Mathlib.Data.List.Induction
import Mathlib.Data.List.TakeWhile
import ScriptMachine.CommandLine

set_option autoImplicit false

/- What the interpreter's command line accepts, and what it makes of it. Arguments are accepted when
they spell words, one after the other, and each option has the value of the last word that sets it.
Counts may have blanks and a sign in front of their digits, and an empty script counts as none. -/
namespace ScriptMachine.CommandLine

theorem bind_eq_ok_iff {ε α β : Type} {first : Except ε α} {later : α → Except ε β} {result : β} :
    first >>= later = .ok result ↔ ∃ value, first = .ok value ∧ later value = .ok result := by
  cases first <;> simp [bind, Except.bind]

section Counts

/-- What may stand in front of the digits of a count. -/
inductive Sign where
  | none
  | plus
  | minus

def Sign.text : Sign → Text
  | .none => []
  | .plus => [43]
  | .minus => [45]

/-- A minus sign negates a 64-bit word. -/
def Sign.apply (word : UInt64) : Sign → UInt64
  | .none | .plus => word
  | .minus => 0 - word

/-- At least one digit, and nothing else. -/
def Digits (text : Text) : Prop :=
  text ≠ [] ∧ ∀ byte ∈ text, Text.isDigit byte = true

/-- A count as it may be written: blanks, a sign, and the digits of a number below 2^64. -/
def Denotes (text : Text) (count : UInt64) : Prop :=
  ∃ (blanks : Text) (sign : Sign) (digits : Text), text = blanks ++ (sign.text ++ digits) ∧
    (∀ byte ∈ blanks, Text.isSpace byte = true) ∧ Digits digits ∧
    Text.digitsValue digits < UInt64.size ∧ count = sign.apply (Text.digitsValue digits).toUInt64

/-- The sign a text begins with, and what follows it. -/
def signed : Text → Sign × Text
  | 43 :: rest => (.plus, rest)
  | 45 :: rest => (.minus, rest)
  | rest => (.none, rest)

theorem signed_append (text : Text) : text = (signed text).1.text ++ (signed text).2 := by
  unfold signed
  split <;> rfl

theorem leadingWord_eq (text : Text) :
    leadingWord text =
      let unsigned := signed (text.dropWhile Text.isSpace)
      let digits := unsigned.2.takeWhile Text.isDigit
      if digits.isEmpty || 18446744073709551615 < Text.digitsValue digits then none
      else some (unsigned.1.apply (Text.digitsValue digits).toUInt64,
        unsigned.2.dropWhile Text.isDigit) := by
  unfold leadingWord
  generalize text.dropWhile Text.isSpace = unsigned
  cases unsigned with
  | nil => rfl
  | cons first rest =>
    by_cases isPlus : first = 43
    · rw [isPlus]
      rfl
    · by_cases isMinus : first = 45
      · rw [isMinus]
        rfl
      · simp [signed, isPlus, isMinus, Sign.apply]

/-- A digit is neither a blank nor a sign. -/
theorem of_isDigit {byte : UInt8} (isDigit : Text.isDigit byte = true) :
    Text.isSpace byte = false ∧ byte ≠ 43 ∧ byte ≠ 45 := by
  refine ⟨?_, fun same => ?_, fun same => ?_⟩
  · simp only [Text.isDigit, Bool.and_eq_true, decide_eq_true_eq, UInt8.le_iff_toNat_le] at isDigit
    simp only [Text.isSpace, Bool.or_eq_false_iff, beq_eq_false_iff_ne, Bool.and_eq_false_iff,
      decide_eq_false_iff_not, UInt8.le_iff_toNat_le, ne_eq, ← UInt8.toNat_inj]
    have digit : (48 : UInt8).toNat = 48 := rfl
    have blank : (32 : UInt8).toNat = 32 ∧ (13 : UInt8).toNat = 13 := ⟨rfl, rfl⟩
    omega
  · rw [same] at isDigit
    revert isDigit
    decide
  · rw [same] at isDigit
    revert isDigit
    decide

theorem Digits.cons {digits : Text} (isDigits : Digits digits) :
    ∃ first rest, digits = first :: rest ∧ Text.isDigit first = true := by
  cases digits with
  | nil => exact absurd rfl isDigits.1
  | cons first rest => exact ⟨first, rest, rfl, isDigits.2 first List.mem_cons_self⟩

theorem signed_digits (sign : Sign) {digits : Text} (isDigits : Digits digits) :
    signed (sign.text ++ digits) = (sign, digits) := by
  obtain ⟨first, rest, rfl, isDigit⟩ := isDigits.cons
  obtain ⟨-, notPlus, notMinus⟩ := of_isDigit isDigit
  cases sign with
  | none => simp [Sign.text, signed, notPlus, notMinus]
  | plus => rfl
  | minus => rfl

/-- Blanks end where a sign or a digit comes. -/
theorem dropWhile_blanks {blanks : Text} (isBlank : ∀ byte ∈ blanks, Text.isSpace byte = true)
    (sign : Sign) {digits : Text} (isDigits : Digits digits) :
    (blanks ++ (sign.text ++ digits)).dropWhile Text.isSpace = sign.text ++ digits := by
  obtain ⟨first, rest, rfl, isDigit⟩ := isDigits.cons
  rw [List.dropWhile_append_of_pos isBlank]
  cases sign with
  | none => exact List.dropWhile_cons_of_neg (by simp [(of_isDigit isDigit).1])
  | plus => rfl
  | minus => rfl

theorem leadingWord_eq_some_iff (text : Text) (count : UInt64) :
    leadingWord text = some (count, []) ↔ Denotes text count := by
  constructor
  · intro read
    rw [leadingWord_eq] at read
    have behind := signed_append (text.dropWhile Text.isSpace)
    generalize signed (text.dropWhile Text.isSpace) = unsigned at read behind
    obtain ⟨sign, digits⟩ := unsigned
    dsimp only at read behind
    split at read
    · cases read
    · next fits =>
      obtain ⟨isCount, nothing⟩ := Prod.mk.inj (Option.some.inj read)
      have isDigit := List.dropWhile_eq_nil_iff.mp nothing
      rw [List.takeWhile_eq_self_iff.mpr isDigit] at fits isCount
      simp only [Bool.or_eq_true, List.isEmpty_iff, decide_eq_true_eq, not_or] at fits
      refine ⟨text.takeWhile Text.isSpace, sign, digits, ?_, fun byte => List.mem_takeWhile_imp,
        ⟨fits.1, isDigit⟩, Nat.lt_succ_of_le (Nat.not_lt.mp fits.2), isCount.symm⟩
      rw [← behind, List.takeWhile_append_dropWhile]
  · rintro ⟨blanks, sign, digits, rfl, isBlank, isDigits, small, rfl⟩
    have fits : ¬ 18446744073709551615 < Text.digitsValue digits :=
      Nat.not_lt.mpr (Nat.le_of_lt_succ small)
    rw [leadingWord_eq, dropWhile_blanks isBlank sign isDigits, signed_digits sign isDigits]
    simp only [List.takeWhile_eq_self_iff.mpr isDigits.2, List.dropWhile_eq_nil_iff.mpr isDigits.2,
      List.isEmpty_iff, isDigits.1, fits, decide_false, Bool.or_false]
    rfl

/-- What a flag takes for a count. -/
theorem parseCount_eq_ok_iff (flag text : Text) (count : UInt64) :
    parseCount flag text = .ok count ↔ Denotes text count := by
  rw [← leadingWord_eq_some_iff, parseCount]
  split
  · next nothing => simp [nothing]
  · next word read => simp [read]
  · next word first rest read => simp [read]

/-- What an option makes of its count. -/
theorem counted_eq_ok_iff {flag text : Text} {set : UInt64 → CommandLine} {next : CommandLine} :
    (do return set (← parseCount flag text)) = Except.ok next ↔
      ∃ count, Denotes text count ∧ next = set count := by
  simp only [bind_eq_ok_iff, parseCount_eq_ok_iff, pure, Except.pure, Except.ok.injEq,
    @eq_comm _ next]

/-- A count as the usage shows it: digits and nothing else. -/
def Plain (text : Text) (count : UInt64) : Prop :=
  Digits text ∧ Text.digitsValue text = count.toNat

theorem Plain.denotes {text : Text} {count : UInt64} (isPlain : Plain text count) :
    Denotes text count := by
  obtain ⟨isDigits, value⟩ := isPlain
  refine ⟨[], .none, text, rfl, by simp, isDigits, ?_, ?_⟩
  · rw [value]
    exact count.toNat_lt
  · rw [value]
    exact (UInt64.ofNat_toNat).symm

/-- A count without a blank and without a sign is the number that its digits make. -/
theorem Denotes.plain {text : Text} {count : UInt64} (denotes : Denotes text count)
    (isDigits : Digits text) : Plain text count := by
  refine ⟨isDigits, ?_⟩
  obtain ⟨blanks, sign, digits, rfl, isBlank, -, small, rfl⟩ := denotes
  cases blanks with
  | cons first rest =>
    have noBlank := (of_isDigit (isDigits.2 first List.mem_cons_self)).1
    rw [isBlank first List.mem_cons_self] at noBlank
    cases noBlank
  | nil =>
    cases sign with
    | none => exact (Nat.mod_eq_of_lt small).symm
    | plus => exact absurd rfl (of_isDigit (isDigits.2 43 List.mem_cons_self)).2.1
    | minus => exact absurd rfl (of_isDigit (isDigits.2 45 List.mem_cons_self)).2.2

end Counts

section Words

/-- What a command line is made of. A count stands beside its operand. -/
inductive Word where
  | stress
  | gcLog
  | dumpBytecode
  | quietLog
  | heapLimit (operand : Text) (count : UInt64)
  | maxFrames (operand : Text) (count : UInt64)
  | logFile (path : Text)
  | script (path : Text)
  deriving DecidableEq

namespace Word

/-- The arguments that a word is spelled with. -/
def spelled : Word → List Text
  | .stress => [ascii "--stress-gc"]
  | .gcLog => [ascii "--gc-log"]
  | .dumpBytecode => [ascii "--dump-bytecode"]
  | .quietLog => [ascii "--quiet-log"]
  | .heapLimit operand _ => [ascii "--heap-limit", operand]
  | .maxFrames operand _ => [ascii "--max-frames", operand]
  | .logFile path => [ascii "--log-file", path]
  | .script path => [path]

/-- A word that is spelled right. -/
def Accepted : Word → Prop
  | .heapLimit operand count | .maxFrames operand count => Denotes operand count
  | .script path => path.head? ≠ some 45
  | _ => True

def limit? : Word → Option UInt64
  | .heapLimit _ count => some count
  | _ => none

def frames? : Word → Option UInt64
  | .maxFrames _ count => some count
  | _ => none

/-- The log that a word sets; no log has an empty path. -/
def log? : Word → Option Text
  | .logFile path => some path
  | .quietLog => some []
  | _ => none

def script? : Word → Option Text
  | .script path => some path
  | _ => none

/-- A command line after one more word. -/
def apply (line : CommandLine) : Word → CommandLine
  | .stress => line.withHeap fun heap => { heap with stress := true }
  | .gcLog => line.withHeap fun heap => { heap with logCollections := true }
  | .dumpBytecode => { line with options := { line.options with dumpBytecode := true } }
  | .quietLog => { line with log := [] }
  | .heapLimit _ count => line.withHeap fun heap => { heap with limit := count }
  | .maxFrames _ count => line.withFrames count.toNat
  | .logFile path => { line with log := path }
  | .script path => { line with script := path }

end Word

/-- What words ask for: each option has the value of the last word that sets it, and its default
without one. -/
def settled (words : List Word) : CommandLine where
  options := {
    heap := {
      limit := (words.filterMap Word.limit?).getLast?.getD 0
      stress := words.contains .stress
      logCollections := words.contains .gcLog }
    machine := {
      maxFrames := ((words.filterMap Word.frames?).getLast?.getD 64).toNat }
    dumpBytecode := words.contains .dumpBytecode }
  script := (words.filterMap Word.script?).getLast?.getD []
  log := (words.filterMap Word.log?).getLast?.getD (ascii "Error.log")

theorem settled_concat (words : List Word) (word : Word) :
    settled (words ++ [word]) = word.apply (settled words) := by
  cases word <;>
    simp [settled, Word.apply, Word.limit?, Word.frames?, Word.log?, Word.script?, withHeap,
      withFrames, List.filterMap_append]

theorem foldl_apply (words : List Word) : words.foldl Word.apply {} = settled words := by
  induction words using List.reverseRecOn with
  | nil => rfl
  | append_singleton words word ih => rw [List.foldl_append, ih, settled_concat]; rfl

/-- A word that may come next: a script only when none is known yet. -/
def Word.Fits (line : CommandLine) (word : Word) : Prop :=
  word.Accepted ∧ (word.script? = none ∨ line.script = [])

/-- An argument that does not begin with a dash is no option. -/
theorem no_option {argument : Text} (head : argument.head? ≠ some 45) (line : CommandLine) :
    line.flag? argument = none ∧ valued? argument = none := by
  have differs {option : Text} (dashed : option.head? = some 45) : (argument == option) = false := by
    rw [beq_eq_false_iff_ne]
    rintro rfl
    exact head dashed
  constructor
  · simp [flag?, @differs (ascii "--stress-gc") rfl, @differs (ascii "--gc-log") rfl,
      @differs (ascii "--dump-bytecode") rfl, @differs (ascii "--quiet-log") rfl]
  · simp [valued?, @differs (ascii "--heap-limit") rfl, @differs (ascii "--max-frames") rfl,
      @differs (ascii "--log-file") rfl]

theorem positional_eq_ok_iff {line next : CommandLine} {argument : Text} :
    line.positional argument = .ok next ↔
      (Word.script argument).Fits line ∧ next = (Word.script argument).apply line := by
  simp only [positional, Word.Fits, Word.Accepted, Word.script?, Word.apply, beq_iff_eq,
    List.isEmpty_iff]
  split
  · next dashed => simp [dashed]
  · next plain =>
    split
    · next unknown => simp [plain, unknown, eq_comm]
    · next known => simp [known]

theorem parseFrom_valued {line next : CommandLine} {option value : Text}
    {apply : CommandLine → Text → Except UsageError CommandLine} (noFlag : line.flag? option = none)
    (known : valued? option = some apply) (read : apply line value = .ok next) (rest : List Text) :
    line.parseFrom (option :: value :: rest) = next.parseFrom rest := by
  rw [parseFrom, noFlag, known]
  simp only [read]
  rfl

/-- Reading a word that fits goes on with what it makes of the command line. -/
theorem parseFrom_spelled {line : CommandLine} {word : Word} (fits : word.Fits line)
    (rest : List Text) : line.parseFrom (word.spelled ++ rest) = (word.apply line).parseFrom rest := by
  cases word with
  | stress => rfl
  | gcLog => rfl
  | dumpBytecode => rfl
  | quietLog => rfl
  | heapLimit operand count =>
    exact parseFrom_valued rfl rfl (counted_eq_ok_iff.mpr ⟨count, fits.1, rfl⟩) rest
  | maxFrames operand count =>
    exact parseFrom_valued rfl rfl (counted_eq_ok_iff.mpr ⟨count, fits.1, rfl⟩) rest
  | logFile path => rfl
  | script path =>
    obtain ⟨noFlag, noValue⟩ := no_option fits.1 line
    rw [Word.spelled, List.singleton_append, parseFrom, noFlag, noValue]
    simp only [positional_eq_ok_iff.mpr ⟨fits, rfl⟩]
    rfl

/-- An option that stands alone is a word. -/
theorem exists_word_of_flag? {line next : CommandLine} {argument : Text}
    (read : line.flag? argument = some next) :
    ∃ word : Word, word.spelled = [argument] ∧ word.Fits line ∧ next = word.apply line := by
  simp only [flag?, beq_iff_eq] at read
  split_ifs at read with isStress isLog isDump isQuiet
  · exact ⟨.stress, by rw [isStress]; rfl, ⟨trivial, Or.inl rfl⟩, (Option.some.inj read).symm⟩
  · exact ⟨.gcLog, by rw [isLog]; rfl, ⟨trivial, Or.inl rfl⟩, (Option.some.inj read).symm⟩
  · exact ⟨.dumpBytecode, by rw [isDump]; rfl, ⟨trivial, Or.inl rfl⟩, (Option.some.inj read).symm⟩
  · exact ⟨.quietLog, by rw [isQuiet]; rfl, ⟨trivial, Or.inl rfl⟩, (Option.some.inj read).symm⟩

/-- An option and its value are a word. -/
theorem exists_word_of_valued? {line next : CommandLine} {argument value : Text}
    {apply : CommandLine → Text → Except UsageError CommandLine}
    (option : valued? argument = some apply) (read : apply line value = .ok next) :
    ∃ word : Word, word.spelled = [argument, value] ∧ word.Fits line ∧ next = word.apply line := by
  simp only [valued?, beq_iff_eq] at option
  split_ifs at option with isLimit isFrames isLog
  · obtain rfl := Option.some.inj option
    obtain ⟨count, denotes, applied⟩ := counted_eq_ok_iff.mp read
    exact ⟨.heapLimit value count, by rw [isLimit]; rfl, ⟨denotes, Or.inl rfl⟩, applied⟩
  · obtain rfl := Option.some.inj option
    obtain ⟨count, denotes, applied⟩ := counted_eq_ok_iff.mp read
    exact ⟨.maxFrames value count, by rw [isFrames]; rfl, ⟨denotes, Or.inl rfl⟩, applied⟩
  · obtain rfl := Option.some.inj option
    exact ⟨.logFile value, by rw [isLog]; rfl, ⟨trivial, Or.inl rfl⟩, (Except.ok.inj read).symm⟩

/-- Words that fit one after the other. -/
def Fitting (line : CommandLine) : List Word → Prop
  | [] => True
  | word :: words => word.Fits line ∧ Fitting (word.apply line) words

theorem parseFrom_fitting {line : CommandLine} {words : List Word} (fitting : Fitting line words) :
    line.parseFrom (words.flatMap Word.spelled) = .ok (words.foldl Word.apply line) := by
  induction words generalizing line with
  | nil => rfl
  | cons word words ih =>
    rw [List.flatMap_cons, parseFrom_spelled fitting.1, ih fitting.2, List.foldl_cons]

theorem exists_fitting {line final : CommandLine} {arguments : List Text}
    (read : line.parseFrom arguments = .ok final) :
    ∃ words, arguments = words.flatMap Word.spelled ∧ Fitting line words ∧
      final = words.foldl Word.apply line := by
  -- one more word in front of the words of the rest
  have extend {line next : CommandLine} {word : Word} {rest : List Text} (fits : word.Fits line)
      (applied : next = word.apply line)
      (later : ∃ words, rest = words.flatMap Word.spelled ∧ Fitting next words ∧
        final = words.foldl Word.apply next) :
      ∃ words, word.spelled ++ rest = words.flatMap Word.spelled ∧ Fitting line words ∧
        final = words.foldl Word.apply line := by
    obtain ⟨words, rfl, fitting, rfl⟩ := later
    subst applied
    exact ⟨word :: words, by rw [List.flatMap_cons], ⟨fits, fitting⟩, by rw [List.foldl_cons]⟩
  fun_induction parseFrom line arguments with
  | case1 line => exact ⟨[], rfl, trivial, (Except.ok.inj read).symm⟩
  | case2 line argument rest next flag ih =>
    obtain ⟨word, spelled, fits, applied⟩ := exists_word_of_flag? flag
    have := extend fits applied (ih read)
    rwa [spelled] at this
  | case3 line argument rest noFlag noValue ih =>
    obtain ⟨next, taken, read⟩ := bind_eq_ok_iff.mp read
    obtain ⟨fits, applied⟩ := positional_eq_ok_iff.mp taken
    exact extend fits applied (ih next read)
  | case4 line argument noFlag apply option => cases read
  | case5 line argument noFlag apply option value rest ih =>
    obtain ⟨next, taken, read⟩ := bind_eq_ok_iff.mp read
    obtain ⟨word, spelled, fits, applied⟩ := exists_word_of_valued? option taken
    have := extend fits applied (ih next read)
    rwa [spelled] at this

/-- Words fit when each is accepted and every script but the last, one that is already known
included, is empty. -/
theorem fitting_iff (line : CommandLine) (words : List Word) :
    Fitting line words ↔ (∀ word ∈ words, word.Accepted) ∧
      ∀ path ∈ (line.script :: words.filterMap Word.script?).dropLast, path = [] := by
  induction words generalizing line with
  | nil => simp [Fitting]
  | cons word words ih =>
    rw [Fitting, ih, Word.Fits, List.forall_mem_cons]
    cases named : word.script? with
    | none =>
      have kept : (word.apply line).script = line.script := by
        cases word <;> first | rfl | cases named
      simp only [List.filterMap_cons_none named, kept, true_or, and_true, and_assoc]
    | some path =>
      have taken : (word.apply line).script = path := by
        cases word with
        | script name => exact Option.some.inj named
        | _ => cases named
      simp only [List.filterMap_cons_some named, taken, reduceCtorEq, false_or,
        List.dropLast_cons_cons, List.forall_mem_cons]
      tauto

/-- Arguments read as words: they spell accepted words, and every script but the last is empty. -/
structure Reads (arguments : List Text) (words : List Word) : Prop where
  spelled : arguments = words.flatMap Word.spelled
  accepted : ∀ word ∈ words, word.Accepted
  scripts : ∀ path ∈ (words.filterMap Word.script?).dropLast, path = []

theorem fitting_default_iff (words : List Word) :
    Fitting {} words ↔ Reads (words.flatMap Word.spelled) words := by
  have scripts : (∀ path ∈ ([] :: words.filterMap Word.script?).dropLast, path = []) ↔
      ∀ path ∈ (words.filterMap Word.script?).dropLast, path = [] := by
    cases words.filterMap Word.script? with
    | nil => simp
    | cons path paths => simp
  rw [fitting_iff, scripts]
  exact ⟨fun ⟨accepted, empty⟩ => ⟨rfl, accepted, empty⟩,
    fun reads => ⟨reads.accepted, reads.scripts⟩⟩

/-- A command line is accepted when its arguments read as words, and settles what these ask for. -/
theorem parse_eq_ok_iff (arguments : List Text) (line : CommandLine) :
    parse arguments = .ok line ↔ ∃ words, Reads arguments words ∧ line = settled words := by
  constructor
  · intro read
    obtain ⟨words, rfl, fitting, rfl⟩ := exists_fitting read
    exact ⟨words, (fitting_default_iff words).mp fitting, foldl_apply words⟩
  · rintro ⟨words, reads, rfl⟩
    obtain rfl := reads.spelled
    rw [parse, parseFrom_fitting ((fitting_default_iff words).mpr reads), foldl_apply]

/-- A minus sign makes a limit that hardly limits. -/
example : (parse [ascii "--heap-limit", ascii "-1"]).toOption.map (·.options.heap.limit) =
    some 18446744073709551615 := by decide

/-- Arguments that do not read as words are complained about, and nothing is run. -/
theorem run_refused {arguments : List Text} (unread : ¬ ∃ words, Reads arguments words) :
    ∃ error, ∀ (readFile : List Entry → Text → Option Text) (input time : Text) (steps : Nat),
      run arguments readFile input time steps = .ok (refusal error) := by
  cases read : parse arguments with
  | ok line =>
    obtain ⟨words, reads, -⟩ := (parse_eq_ok_iff arguments line).mp read
    exact absurd ⟨words, reads⟩ unread
  | error error =>
    refine ⟨error, fun readFile input time steps => ?_⟩
    rw [run, read]
    rfl

/-- A word as the usage shows it. -/
def Word.Documented : Word → Prop
  | .heapLimit operand count | .maxFrames operand count => Plain operand count
  | .script path => path.head? ≠ some 45
  | _ => True

/-- Words as the usage shows them, with one script at most. -/
structure Documented (words : List Word) : Prop where
  word : ∀ word ∈ words, word.Documented
  script : (words.filterMap Word.script?).length ≤ 1

theorem Word.Documented.accepted {word : Word} (documented : word.Documented) : word.Accepted := by
  cases word with
  | heapLimit operand count | maxFrames operand count => exact Plain.denotes documented
  | _ => exact documented

theorem Documented.reads {words : List Word} (documented : Documented words) :
    Reads (words.flatMap Word.spelled) words where
  spelled := rfl
  accepted word member := (documented.word word member).accepted
  scripts path member := by
    have short := documented.script
    have : (words.filterMap Word.script?).dropLast = [] := by
      rw [← List.length_eq_zero_iff, List.length_dropLast]
      omega
    rw [this] at member
    cases member

/-- What the usage shows is accepted, and each option has the value that the usage gives it. -/
theorem parse_documented {words : List Word} (documented : Documented words) :
    parse (words.flatMap Word.spelled) = .ok (settled words) :=
  (parse_eq_ok_iff _ _).mpr ⟨words, documented.reads, rfl⟩

/-- An accepted word of another form than the usage shows holds a count with more than digits. -/
theorem Word.Accepted.documented_or {word : Word} (accepted : word.Accepted) :
    word.Documented ∨
      ∃ operand ∈ word.spelled, (∃ count, Denotes operand count) ∧ ¬ Digits operand := by
  cases word with
  | heapLimit operand count | maxFrames operand count =>
    by_cases isDigits : Digits operand
    · exact Or.inl (Denotes.plain accepted isDigits)
    · exact Or.inr ⟨operand, by simp [Word.spelled], ⟨count, accepted⟩, isDigits⟩
  | _ => exact Or.inl accepted

/-- The first script of several is an empty argument. -/
theorem Reads.nil_mem {arguments : List Text} {words : List Word} (reads : Reads arguments words)
    (several : 1 < (words.filterMap Word.script?).length) : [] ∈ arguments := by
  cases scripts : (words.filterMap Word.script?).dropLast with
  | nil =>
    rw [← List.length_eq_zero_iff, List.length_dropLast] at scripts
    omega
  | cons path paths =>
    have dropped : path ∈ (words.filterMap Word.script?).dropLast :=
      scripts ▸ List.mem_cons_self
    obtain ⟨word, member, isScript⟩ := List.mem_filterMap.mp ((List.dropLast_sublist _).mem dropped)
    obtain rfl := reads.scripts path dropped
    cases word with
    | script name =>
      obtain rfl := Option.some.inj isScript
      rw [reads.spelled, List.mem_flatMap]
      exact ⟨_, member, List.mem_singleton_self _⟩
    | _ => cases isScript

/-- What is accepted beyond the usage has an empty argument, or a count with a blank or a sign. -/
theorem documented_or_of_parse {arguments : List Text} {line : CommandLine}
    (read : parse arguments = .ok line) :
    (∃ words, Documented words ∧ arguments = words.flatMap Word.spelled ∧ line = settled words) ∨
      [] ∈ arguments ∨
      ∃ operand ∈ arguments, (∃ count, Denotes operand count) ∧ ¬ Digits operand := by
  obtain ⟨words, reads, rfl⟩ := (parse_eq_ok_iff arguments line).mp read
  by_cases several : 1 < (words.filterMap Word.script?).length
  · exact Or.inr (Or.inl (reads.nil_mem several))
  by_cases documented : ∀ word ∈ words, word.Documented
  · exact Or.inl ⟨words, ⟨documented, by omega⟩, reads.spelled, rfl⟩
  · push Not at documented
    obtain ⟨word, member, undocumented⟩ := documented
    obtain shown | ⟨operand, spelled, loose⟩ := (reads.accepted word member).documented_or
    · exact absurd shown undocumented
    · refine Or.inr (Or.inr ⟨operand, ?_, loose⟩)
      rw [reads.spelled]
      exact List.mem_flatMap.mpr ⟨word, member, spelled⟩

end Words

end ScriptMachine.CommandLine
