import Sigil2.Basic
import Mathlib.Logic.Function.Basic
import Mathlib.Data.Nat.Digits

/-! Option parsing (`onParse`): the short options `-o`, `-c` and `-l`. `-c` is read by
`std::stoi` (libstdc++: `strtol` in base 10, then the range of `int`) into an `unsigned`. -/
namespace STGen

/-- `isspace` in the C locale. -/
def isSpace (c : Char) : Bool :=
  c = ' ' || c = '\t' || c = '\n' || c = '\x0B' || c = '\x0C' || c = '\r'

/-- The digit loop of `strtol` in base 10. -/
def decValue (acc : Nat) (ds : List Char) : Nat :=
  ds.foldl (fun v c => v * 10 + (c.toNat - '0'.toNat)) acc

/-- The optional sign `strtol` reads: whether the value is negated, and what follows. -/
def signOf : List Char → Bool × List Char
  | '-' :: cs => (true, cs)
  | '+' :: cs => (false, cs)
  | cs => (false, cs)

inductive StoiError where
  | invalidArgument | outOfRange
  deriving DecidableEq, Repr

/-- `std::stoi`: white space is skipped, then an optional sign and the longest run of decimal
digits are read. Without a digit there is no conversion (`std::invalid_argument`); a value
outside `int` is `std::out_of_range`. -/
def stoi (s : String) : Except StoiError Int :=
  let (neg, cs) := signOf (s.toList.dropWhile isSpace)
  let ds := cs.takeWhile Char.isDigit
  if ds = [] then .error .invalidArgument
  else
    let v : Int := if neg then -(decValue 0 ds : Int) else decValue 0 ds
    if v < -2 ^ 31 ∨ 2 ^ 31 ≤ v then .error .outOfRange else .ok v

/-- The loggers `-l` names: `LogGeneratorFactory` of `TextLogger`, `CapnLogger`, `NullLogger`. -/
inductive LogKind where
  | text | capnp | null
  deriving DecidableEq, Repr

def LogKind.name : LogKind → String
  | .text => "text"
  | .capnp => "capnp"
  | .null => "null"

/-- The globals `onParse` sets; `genLog` is an empty `std::function` until it is set. -/
structure Options where
  outputPath : String
  primsPerStCompEv : Nat
  genLog : Option LogKind
  deriving DecidableEq, Repr

def Options.init : Options := ⟨".", 100, none⟩

/-- The short options, in the order of their `std::set<char>`. -/
def options : List Char := ['c', 'l', 'o']

/-- `substr(0, 1) == "-"` and `length() > 1`: the letter after the dash, and what follows it. -/
def dashed : List Char → Option (Char × List Char)
  | '-' :: c :: value => some (c, value)
  | _ => none

/-- The loop of `onParse`, with the `matches` map (`matched` here) and the count of unmatched
arguments. An argument `-x...` whose `x` is an option sets `matches[x]` to the rest of the
argument, or, when there is none, to the next argument, which it consumes; a last `-x` alone
sets nothing. -/
def scan (matched : Char → String) (unmatched : Nat) : List String → (Char → String) × Nat
  | [] => (matched, unmatched)
  | arg :: args =>
    match dashed arg.toList with
    | some (c, value) =>
      match options.find? (· = c) with
      | some opt =>
        if value ≠ [] then scan (Function.update matched opt (String.mk value)) unmatched args
        else
          match args with
          | next :: args => scan (Function.update matched opt next) unmatched args
          | [] => (matched, unmatched)
      | none => scan matched (unmatched + 1) args
    | none => scan matched (unmatched + 1) args

/-- `-l`: the value, lowercased by `std::transform` with `::tolower`, names the logger. -/
def selectLogger (l : String) : Except String LogKind :=
  let l := String.mk (l.toList.map Char.toLower)
  if l = "text" then .ok .text
  else if l = "capnp" then .ok .capnp
  else if l = "null" then .ok .null
  else .error ("unexpected synchrotracegen options: -l " ++ l)

/-- `-c`: the `int` of `std::stoi`, stored in the `unsigned` `primsPerStCompEv`. -/
def compressionLevel (c : String) : Except String Nat :=
  match stoi c with
  | .ok v => .ok (v % 2 ^ 32).toNat
  | .error .invalidArgument => .error "SynchroTraceGen compression level: invalid argument"
  | .error .outOfRange => .error "SynchroTraceGen compression level: out_of_range"

/-- What `onParse` does with the options found, once none is unmatched. Without `-l` the
logger is `TextLogger`. -/
def applyMatches (opts : Options) (matched : Char → String) : Except String Options :=
  let opts := if matched 'o' ≠ "" then { opts with outputPath := matched 'o' } else opts
  (if matched 'l' ≠ "" then selectLogger (matched 'l') else .ok .text) >>= fun genLog =>
    let opts := { opts with genLog := some genLog }
    if matched 'c' ≠ "" then
      (compressionLevel (matched 'c')).map fun n => { opts with primsPerStCompEv := n }
    else .ok opts

/-- `onParse`; `fatal` stops the backend with its message. -/
def onParse (opts : Options) (args : List String) : Except String Options := do
  let (matched, unmatched) := scan (fun _ => "") 0 args
  if unmatched > 0 then throw "unexpected synchrotracegen options"
  applyMatches opts matched

example : onParse Options.init ["-o", "out", "-lCapnP", "-c20"] = .ok ⟨"out", 20, some .capnp⟩ :=
  rfl

section Stoi

theorem decValue_append (a : Nat) (l₁ l₂ : List Char) :
    decValue a (l₁ ++ l₂) = decValue (decValue a l₁) l₂ :=
  List.foldl_append _ _ _ _

theorem digitChar_spec : ∀ d < 10, (Nat.digitChar d).isDigit = true ∧
    (Nat.digitChar d).toNat - '0'.toNat = d := by
  decide

theorem toDigitsCore_spec : ∀ (fuel n : Nat) (ds : List Char), n < fuel →
    ∃ pre, Nat.toDigitsCore 10 fuel n ds = pre ++ ds ∧ pre ≠ [] ∧
      (∀ c ∈ pre, c.isDigit = true) ∧ decValue 0 pre = n
  | 0, _, _, h => absurd h (Nat.not_lt_zero _)
  | fuel + 1, n, ds, h => by
    have hd := digitChar_spec (n % 10) (Nat.mod_lt _ (by decide))
    rw [Nat.toDigitsCore]
    split
    · next h0 =>
      refine ⟨[Nat.digitChar (n % 10)], rfl, List.cons_ne_nil _ _, by simpa using hd.1, ?_⟩
      simp only [decValue, List.foldl_cons, List.foldl_nil, Nat.zero_mul, Nat.zero_add, hd.2]
      omega
    · next h0 =>
      obtain ⟨pre, heq, -, hdig, hval⟩ :=
        toDigitsCore_spec fuel (n / 10) (Nat.digitChar (n % 10) :: ds) (by omega)
      refine ⟨pre ++ [Nat.digitChar (n % 10)], by rw [heq, List.append_assoc]; rfl, by simp,
        List.forall_mem_append.mpr ⟨hdig, List.forall_mem_singleton.mpr hd.1⟩, ?_⟩
      · rw [decValue_append, hval]
        simp only [decValue, List.foldl_cons, List.foldl_nil, hd.2]
        omega

theorem toString_digits (n : Nat) :
    (toString n).toList ≠ [] ∧ (∀ c ∈ (toString n).toList, c.isDigit = true) ∧
      decValue 0 (toString n).toList = n := by
  obtain ⟨pre, heq, hne, hdig, hval⟩ := toDigitsCore_spec (n + 1) n [] (Nat.lt_succ_self n)
  have h : (toString n).toList = pre := heq.trans (List.append_nil pre)
  rw [h]
  exact ⟨hne, hdig, hval⟩

theorem isSpace_of_isDigit {c : Char} (digit : c.isDigit = true) : isSpace c = false := by
  simp only [Char.isDigit, Bool.and_eq_true, decide_eq_true_eq] at digit
  simp only [isSpace, Bool.or_eq_false_iff, decide_eq_false_iff_not]
  refine ⟨⟨⟨⟨⟨?_, ?_⟩, ?_⟩, ?_⟩, ?_⟩, ?_⟩ <;> rintro rfl <;> revert digit <;> decide

theorem signOf_of_isDigit {c : Char} (digit : c.isDigit = true) (cs : List Char) :
    signOf (c :: cs) = (false, c :: cs) := by
  unfold signOf
  split
  · next h => cases h; simp [Char.isDigit] at digit
  · next h => cases h; simp [Char.isDigit] at digit
  · rfl

theorem stoi_eq {ws ds rest : List Char} (neg : Bool) (spaces : ∀ c ∈ ws, isSpace c = true)
    (nonempty : ds ≠ []) (digits : ∀ c ∈ ds, c.isDigit = true)
    (stop : ∀ c ∈ rest.head?, c.isDigit = false) :
    stoi ⟨ws ++ (if neg then ['-'] else []) ++ ds ++ rest⟩ =
      let v : Int := if neg then -(decValue 0 ds : Int) else decValue 0 ds
      if v < -2 ^ 31 ∨ 2 ^ 31 ≤ v then .error .outOfRange else .ok v := by
  obtain ⟨d, ds', rfl⟩ := List.exists_cons_of_ne_nil nonempty
  have hd := digits d (.head _)
  have htake : (d :: ds' ++ rest).takeWhile Char.isDigit = d :: ds' := by
    rw [List.takeWhile_append_of_pos digits]
    cases rest with
    | nil => simp
    | cons r rest => simp [stop r rfl]
  have hsign : signOf (((if neg then ['-'] else []) ++ d :: ds' ++ rest)) = (neg, d :: ds' ++ rest) := by
    cases neg
    · exact signOf_of_isDigit hd _
    · rfl
  have hdrop : (ws ++ ((if neg then ['-'] else []) ++ d :: ds' ++ rest)).dropWhile isSpace =
      (if neg then ['-'] else []) ++ d :: ds' ++ rest := by
    rw [List.dropWhile_append_of_pos spaces]
    cases neg
    · exact List.dropWhile_cons_of_neg (by simp [isSpace_of_isDigit hd])
    · rfl
  simp only [stoi, String.toList, List.append_assoc] at hdrop hsign ⊢
  rw [hdrop, hsign]
  simp only [htake, if_neg (List.cons_ne_nil d ds')]

theorem mem_signOf {cs : List Char} {c : Char} (mem : c ∈ (signOf cs).2) : c ∈ cs := by
  unfold signOf at mem
  split at mem <;> simp_all

theorem stoi_of_no_digit {w : List Char} (noDigit : ∀ c ∈ w, c.isDigit = false) :
    stoi ⟨w⟩ = .error .invalidArgument := by
  have htake : ((signOf (w.dropWhile isSpace)).2).takeWhile Char.isDigit = [] := by
    generalize hx : (signOf (w.dropWhile isSpace)).2 = x
    have hx' : ∀ c ∈ x, c.isDigit = false := fun c hc =>
      noDigit c (List.dropWhile_subset _ (mem_signOf (hx ▸ hc)))
    cases x with
    | nil => rfl
    | cons a x => simp [hx' a (.head _)]
  simp only [stoi, String.toList]
  rw [htake]
  rfl

end Stoi

section Scan

variable {m : Char → String} {u : Nat} {arg : String} {args : List String} {c : Char}
  {value : List Char}

theorem find?_options {opt : Char} (found : options.find? (· = c) = some opt) :
    opt = c ∧ c ∈ options := by
  have hc := List.find?_some found
  simp only [decide_eq_true_eq] at hc
  exact ⟨hc, hc ▸ List.mem_of_find?_eq_some found⟩

theorem find?_options_of_mem (mem : c ∈ options) : options.find? (· = c) = some c := by
  simp only [options, List.mem_cons, List.mem_singleton, List.not_mem_nil, or_false] at mem
  rcases mem with rfl | rfl | rfl <;> rfl

theorem dashed_eq_some {l : List Char} (dashes : dashed l = some (c, value)) :
    l = '-' :: c :: value := by
  unfold dashed at dashes
  split at dashes
  · cases dashes
    rfl
  · cases dashes

theorem scan_attached (dashes : dashed arg.toList = some (c, value)) {opt : Char}
    (found : options.find? (· = c) = some opt) (attached : value ≠ []) :
    scan m u (arg :: args) = scan (Function.update m opt ⟨value⟩) u args := by
  rw [scan, dashes]
  simp only [found, ne_eq, attached, not_false_eq_true, if_true]

theorem scan_apart (dashes : dashed arg.toList = some (c, [])) {opt : Char}
    (found : options.find? (· = c) = some opt) (next : String) :
    scan m u (arg :: next :: args) = scan (Function.update m opt next) u args := by
  rw [scan, dashes]
  simp only [found, ne_eq, not_true_eq_false, if_false]

theorem scan_last (dashes : dashed arg.toList = some (c, [])) {opt : Char}
    (found : options.find? (· = c) = some opt) : scan m u [arg] = (m, u) := by
  rw [scan, dashes]
  simp only [found, ne_eq, not_true_eq_false, if_false]

theorem scan_unknown (dashes : dashed arg.toList = some (c, value))
    (unknown : options.find? (· = c) = none) : scan m u (arg :: args) = scan m (u + 1) args := by
  rw [scan, dashes]
  simp only [unknown]

theorem scan_plain (plain : dashed arg.toList = none) :
    scan m u (arg :: args) = scan m (u + 1) args := by
  rw [scan, plain]

theorem le_scan (m : Char → String) (u : Nat) (args : List String) : u ≤ (scan m u args).2 := by
  induction m, u, args using scan.induct with
  | case1 => exact le_rfl
  | case2 m u arg args c value hd opt hf hv ih => rwa [scan_attached hd hf hv]
  | case3 m u arg c value hd opt hf hv next args ih =>
    rw [scan_apart (not_not.mp hv ▸ hd) hf]
    exact ih
  | case4 m u arg c value hd opt hf hv => rw [scan_last (not_not.mp hv ▸ hd) hf]
  | case5 m u arg args c value hd hf ih =>
    rw [scan_unknown hd hf]
    omega
  | case6 m u arg args hd ih =>
    rw [scan_plain hd]
    omega

end Scan

/-- An option as a user writes it: attached (`-xVALUE`) or apart (`-x VALUE`). -/
structure Setting where
  opt : Char
  value : String
  attached : Bool
  deriving DecidableEq, Repr

/-- An option alone: `-x`. -/
def flag (opt : Char) : String := ⟨['-', opt]⟩

def Setting.args (s : Setting) : List String :=
  if s.attached then [⟨'-' :: s.opt :: s.value.toList⟩] else [flag s.opt, s.value]

/-- An option `onParse` knows, with a value if attached: `-x` alone takes the next argument. -/
def Setting.WellFormed (s : Setting) : Prop :=
  s.opt ∈ options ∧ (s.attached = true → s.value ≠ "")

/-- What a setting does to `matches`. -/
def Setting.apply (m : Char → String) (s : Setting) : Char → String :=
  Function.update m s.opt s.value

/-- The arguments `onParse` accepts: well-formed settings, then perhaps one option alone. -/
def ArgsWellFormed (args : List String) : Prop :=
  ∃ (ss : List Setting) (t : List String), (∀ s ∈ ss, s.WellFormed) ∧
    args = ss.flatMap Setting.args ++ t ∧ (t = [] ∨ ∃ o ∈ options, t = [flag o])

section Settings

variable {m : Char → String} {u : Nat}

theorem scan_setting {s : Setting} (wf : s.WellFormed) (rest : List String) :
    scan m u (s.args ++ rest) = scan (Setting.apply m s) u rest := by
  obtain ⟨hopt, hval⟩ := wf
  unfold Setting.args Setting.apply
  cases hatt : s.attached
  · refine scan_apart ?_ (find?_options_of_mem hopt) s.value
    rfl
  · have hv : s.value.toList ≠ [] := fun h => hval hatt (String.ext h)
    refine scan_attached ?_ (find?_options_of_mem hopt) hv
    rfl

theorem scan_settings {ss : List Setting} (wf : ∀ s ∈ ss, s.WellFormed) (rest : List String) :
    scan m u (ss.flatMap Setting.args ++ rest) = scan (ss.foldl Setting.apply m) u rest := by
  induction ss generalizing m with
  | nil => rfl
  | cons s ss ih =>
    rw [List.flatMap_cons, List.append_assoc, scan_setting (wf s (.head _)),
      ih fun s hs => wf s (.tail _ hs)]
    rfl

theorem scan_flag {o : Char} (mem : o ∈ options) : scan m u [flag o] = (m, u) :=
  scan_last rfl (find?_options_of_mem mem)

/-- Every list of arguments that adds no unmatched argument is well-formed settings, perhaps
followed by one option alone, and `scan` reads it as those settings. -/
theorem scan_sound (m : Char → String) (u : Nat) (args : List String) (accepted : (scan m u args).2 = u) :
    ∃ (ss : List Setting) (t : List String), (∀ s ∈ ss, s.WellFormed) ∧
      args = ss.flatMap Setting.args ++ t ∧ (t = [] ∨ ∃ o ∈ options, t = [flag o]) ∧
      (scan m u args).1 = ss.foldl Setting.apply m := by
  induction m, u, args using scan.induct with
  | case1 m u => exact ⟨[], [], nofun, rfl, .inl rfl, rfl⟩
  | case2 m u arg args c value hd opt hf hv ih =>
    obtain ⟨rfl, hc⟩ := find?_options hf
    rw [scan_attached hd hf hv] at accepted ⊢
    obtain ⟨ss, t, hss, rfl, ht, hm⟩ := ih accepted
    have harg : arg = ⟨'-' :: opt :: (⟨value⟩ : String).toList⟩ := String.ext (dashed_eq_some hd)
    refine ⟨⟨opt, ⟨value⟩, true⟩ :: ss, t, ?_, ?_, ht, hm⟩
    · rintro s (_ | ⟨_, hs⟩)
      exacts [⟨hc, fun _ h => hv (congrArg String.toList h)⟩, hss s hs]
    · rw [harg]
      rfl
  | case3 m u arg c value hd opt hf hv next args ih =>
    obtain ⟨rfl, hc⟩ := find?_options hf
    obtain rfl := not_not.mp hv
    rw [scan_apart hd hf] at accepted ⊢
    obtain ⟨ss, t, hss, rfl, ht, hm⟩ := ih accepted
    have harg : arg = flag opt := String.ext (dashed_eq_some hd)
    refine ⟨⟨opt, next, false⟩ :: ss, t, ?_, ?_, ht, hm⟩
    · rintro s (_ | ⟨_, hs⟩)
      exacts [⟨hc, nofun⟩, hss s hs]
    · rw [harg]
      rfl
  | case4 m u arg c value hd opt hf hv =>
    obtain ⟨rfl, hc⟩ := find?_options hf
    obtain rfl := not_not.mp hv
    rw [scan_last hd hf]
    have harg : arg = flag opt := String.ext (dashed_eq_some hd)
    exact ⟨[], [arg], nofun, rfl, .inr ⟨opt, hc, by rw [harg]⟩, rfl⟩
  | case5 m u arg args c value hd hf ih =>
    rw [scan_unknown hd hf] at accepted
    exact absurd accepted (by have := le_scan m (u + 1) args; omega)
  | case6 m u arg args hd ih =>
    rw [scan_plain hd] at accepted
    exact absurd accepted (by have := le_scan m (u + 1) args; omega)

end Settings

section Parse

variable {opts : Options} {args : List String}

theorem onParse_eq (opts : Options) (args : List String) :
    onParse opts args = if 0 < (scan (fun _ => "") 0 args).2 then
      .error "unexpected synchrotracegen options" else applyMatches opts (scan (fun _ => "") 0 args).1 := by
  unfold onParse
  generalize scan (fun _ => "") 0 args = p
  obtain ⟨m, u⟩ := p
  dsimp only
  split_ifs <;> rfl

theorem scan_eq_zero_iff (m : Char → String) (args : List String) :
    (scan m 0 args).2 = 0 ↔ ArgsWellFormed args := by
  constructor
  · intro h
    obtain ⟨ss, t, hss, heq, ht, -⟩ := scan_sound m 0 args h
    exact ⟨ss, t, hss, heq, ht⟩
  · rintro ⟨ss, t, hss, rfl, ht⟩
    rw [scan_settings hss]
    rcases ht with rfl | ⟨o, ho, rfl⟩
    · rfl
    · rw [scan_flag ho]

theorem selectLogger_error {l e : String} (failed : selectLogger l = .error e) :
    ∃ l', e = "unexpected synchrotracegen options: -l " ++ l' := by
  simp only [selectLogger] at failed
  split_ifs at failed
  cases failed
  exact ⟨_, rfl⟩

theorem compressionLevel_error {c e : String} (failed : compressionLevel c = .error e) :
    e = "SynchroTraceGen compression level: invalid argument" ∨
      e = "SynchroTraceGen compression level: out_of_range" := by
  unfold compressionLevel at failed
  split at failed <;> cases failed
  exacts [.inl rfl, .inr rfl]

theorem applyMatches_error {m : Char → String} {e : String} (failed : applyMatches opts m = .error e) :
    (∃ l', e = "unexpected synchrotracegen options: -l " ++ l') ∨
      e = "SynchroTraceGen compression level: invalid argument" ∨
      e = "SynchroTraceGen compression level: out_of_range" := by
  unfold applyMatches at failed
  generalize hsel : (if m 'l' ≠ "" then selectLogger (m 'l') else .ok .text) = sel at failed
  cases sel with
  | error e' =>
    cases failed
    split_ifs at hsel
    exact .inl (selectLogger_error hsel)
  | ok k =>
    simp only [bind, Except.bind] at failed
    by_cases hcn : m 'c' ≠ ""
    · rw [if_pos hcn] at failed
      generalize hc : compressionLevel (m 'c') = r at failed
      cases r with
      | error e' =>
        cases failed
        exact .inr (compressionLevel_error hc)
      | ok n => cases failed
    · rw [if_neg hcn] at failed
      cases failed

theorem applyMatches_ne_unexpected (opts : Options) (m : Char → String) :
    applyMatches opts m ≠ .error "unexpected synchrotracegen options" := by
  intro h
  rcases applyMatches_error h with ⟨l', hl⟩ | hc | hc
  · have hlen := congrArg String.length hl
    rw [String.length_append] at hlen
    have h₁ : "unexpected synchrotracegen options: -l ".length = 39 := rfl
    have h₂ : "unexpected synchrotracegen options".length = 34 := rfl
    omega
  all_goals exact absurd hc (by decide)

/-- `onParse` stops with "unexpected synchrotracegen options" exactly on the argument lists
that are not well-formed settings followed by at most one option alone. -/
theorem onParse_unexpected_iff (opts : Options) (args : List String) :
    onParse opts args = .error "unexpected synchrotracegen options" ↔ ¬ ArgsWellFormed args := by
  rw [onParse_eq, ← scan_eq_zero_iff (fun _ => "") args]
  split_ifs with h
  · exact iff_of_true rfl (by omega)
  · exact iff_of_false (applyMatches_ne_unexpected opts _) (not_not.mpr (by omega))

theorem foldl_apply_of_forall_ne {ss : List Setting} {x : Char} (other : ∀ s ∈ ss, s.opt ≠ x)
    (m : Char → String) : (ss.foldl Setting.apply m) x = m x := by
  induction ss generalizing m with
  | nil => rfl
  | cons s ss ih =>
    rw [List.foldl_cons, ih (fun t ht => other t (.tail _ ht)), Setting.apply,
      Function.update_noteq (other s (.head _)).symm]

theorem foldl_apply_last {A B : List Setting} {s : Setting} (other : ∀ t ∈ B, t.opt ≠ s.opt)
    (m : Char → String) : ((A ++ s :: B).foldl Setting.apply m) s.opt = s.value := by
  rw [List.foldl_append, List.foldl_cons, foldl_apply_of_forall_ne other, Setting.apply,
    Function.update_same]

theorem selectLogger_of_lower {l : String} {k : LogKind}
    (lower : l.toList.map Char.toLower = k.name.toList) : selectLogger l = .ok k := by
  simp only [selectLogger, lower]
  cases k <;> rfl

theorem stoi_toString (n : Nat) :
    stoi (toString n) = if n < 2 ^ 31 then .ok n else .error .outOfRange := by
  obtain ⟨hne, hdig, hval⟩ := toString_digits n
  have h := @stoi_eq [] (toString n).toList [] false (fun c h => absurd h (List.not_mem_nil c)) hne
    hdig (by simp)
  simp only [List.nil_append, List.append_nil, Bool.false_eq_true, if_false, hval] at h
  refine h.trans ?_
  split_ifs <;> first | rfl | omega

theorem compressionLevel_toString {n : Nat} (small : n < 2 ^ 31) :
    compressionLevel (toString n) = .ok n := by
  rw [compressionLevel, stoi_toString, if_pos small]
  simp only [Except.ok.injEq]
  omega

/-- What `onParse` asks of the three options it is given once each, in any order and form,
after any well-formed settings: each option's value is the one given last. -/
theorem onParse_request (opts : Options) {before req : List Setting}
    (wf : ∀ s ∈ before, s.WellFormed) {path l : String} {k : LogKind} {n : Nat} {fo fl fc : Bool}
    (perm : req.Perm [⟨'o', path, fo⟩, ⟨'l', l, fl⟩, ⟨'c', toString n, fc⟩])
    (nonemptyPath : path ≠ "") (lower : l.toList.map Char.toLower = k.name.toList) (small : n < 2 ^ 31) :
    onParse opts ((before ++ req).flatMap Setting.args) = .ok ⟨path, n, some k⟩ := by
  have hl' : l ≠ "" := by
    rintro rfl
    cases k <;> cases lower
  have hc' : toString n ≠ "" := fun h => (toString_digits n).1 (by rw [h]; rfl)
  have hwf : ∀ s ∈ before ++ req, s.WellFormed := by
    intro s hs
    rcases List.mem_append.mp hs with hs | hs
    · exact wf s hs
    · simp only [perm.mem_iff, List.mem_cons, List.mem_singleton, List.not_mem_nil,
        or_false] at hs
      rcases hs with rfl | rfl | rfl
      exacts [⟨by simp [options], fun _ => nonemptyPath⟩, ⟨by simp [options], fun _ => hl'⟩,
        ⟨by simp [options], fun _ => hc'⟩]
  have hnd : (req.map Setting.opt).Nodup :=
    (perm.map Setting.opt).nodup_iff.mpr (show (['o', 'l', 'c'] : List Char).Nodup by decide)
  -- each option of the request is given once, so its value is the one `matches` keeps
  have hval : ∀ s ∈ req, ((before ++ req).foldl Setting.apply (fun _ => "")) s.opt = s.value := by
    intro s hs
    obtain ⟨A, B, rfl⟩ := List.append_of_mem hs
    rw [← List.append_assoc]
    refine foldl_apply_last (fun t ht heq => ?_) _
    rw [List.map_append, List.map_cons] at hnd
    exact (List.pairwise_cons.mp (List.pairwise_append.mp hnd).2.1).1 _
      (List.mem_map_of_mem _ ht) heq.symm
  have ho := hval ⟨'o', path, fo⟩ (perm.mem_iff.mpr (by simp))
  have hl₂ := hval ⟨'l', l, fl⟩ (perm.mem_iff.mpr (by simp))
  have hc₂ := hval ⟨'c', toString n, fc⟩ (perm.mem_iff.mpr (by simp))
  simp only at ho hl₂ hc₂
  rw [onParse_eq, ← List.append_nil ((before ++ req).flatMap Setting.args), scan_settings hwf]
  simp only [scan, Nat.lt_irrefl, if_false]
  rw [applyMatches, ho, hl₂, hc₂, if_pos nonemptyPath, if_pos hl', selectLogger_of_lower lower]
  simp only [bind, Except.bind, ne_eq, hc', not_false_eq_true, if_true,
    compressionLevel_toString small, Except.map]

theorem request_after_bad_logger :
    (∀ s ∈ [(⟨'l', "bogus", true⟩ : Setting)], s.WellFormed) ∧
      ([⟨'c', "20", false⟩, ⟨'o', "out", true⟩, ⟨'l', "CapnP", false⟩] : List Setting).Perm
        [⟨'o', "out", true⟩, ⟨'l', "CapnP", false⟩, ⟨'c', toString 20, false⟩] ∧
      "out" ≠ "" ∧ "CapnP".toList.map Char.toLower = LogKind.capnp.name.toList ∧ 20 < 2 ^ 31 ∧
      onParse Options.init (([⟨'l', "bogus", true⟩] ++
        [⟨'c', "20", false⟩, ⟨'o', "out", true⟩, ⟨'l', "CapnP", false⟩] : List Setting).flatMap
          Setting.args) =
        .ok ⟨"out", 20, some .capnp⟩ := by
  have hb : ∀ s ∈ [(⟨'l', "bogus", true⟩ : Setting)], s.WellFormed := by
    simp only [List.mem_singleton, forall_eq]
    exact ⟨by decide, fun _ => by decide⟩
  have hreq : ([⟨'c', "20", false⟩, ⟨'o', "out", true⟩, ⟨'l', "CapnP", false⟩] : List Setting).Perm
      [⟨'o', "out", true⟩, ⟨'l', "CapnP", false⟩, ⟨'c', toString 20, false⟩] := by
    decide
  exact ⟨hb, hreq, by decide, by decide, by decide,
    onParse_request Options.init hb hreq (by decide) (by decide) (by decide)⟩

theorem onParse_c (opts : Options) {v : String} (nonempty : v ≠ "") :
    onParse opts ["-c", v] =
      (compressionLevel v).map fun n => { opts with genLog := some .text, primsPerStCompEv := n } := by
  have hs : ∀ s ∈ [(⟨'c', v, false⟩ : Setting)], s.WellFormed := by
    simp only [List.mem_singleton, forall_eq]
    exact ⟨by simp [options], nofun⟩
  rw [onParse_eq, show ["-c", v] = [(⟨'c', v, false⟩ : Setting)].flatMap Setting.args ++ [] from rfl,
    scan_settings hs]
  simp only [scan, Nat.lt_irrefl, if_false, List.foldl_cons, List.foldl_nil, applyMatches,
    Setting.apply, Function.update_same, ne_eq, nonempty, not_false_eq_true, if_true]
  rw [Function.update_noteq (by decide), Function.update_noteq (by decide)]
  rfl

/-- `-c` takes whatever `std::stoi` reads: white space, a sign and trailing characters
around the digits are accepted, and every `int` is stored modulo `2 ^ 32`, so `0`, levels
above `100` and negative levels pass although `ThreadContext` asserts `0 < n ≤ 100`; a
level outside `int` and a value without a digit are fatal. -/
theorem onParse_compression (opts : Options) {ws rest : List Char}
    (spaces : ∀ c ∈ ws, isSpace c = true) (stop : ∀ c ∈ rest.head?, c.isDigit = false)
    (neg : Bool) (n : Nat) :
    onParse opts ["-c", ⟨ws ++ (if neg then ['-'] else []) ++ (toString n).toList ++ rest⟩] =
      (let v : Int := if neg then -(n : Int) else n
        if v < -2 ^ 31 ∨ 2 ^ 31 ≤ v then .error "SynchroTraceGen compression level: out_of_range"
        else .ok { opts with genLog := some .text, primsPerStCompEv := (v % 2 ^ 32).toNat }) ∧
    ∀ w : List Char, w ≠ [] → (∀ c ∈ w, c.isDigit = false) →
      onParse opts ["-c", ⟨w⟩] = .error "SynchroTraceGen compression level: invalid argument" := by
  obtain ⟨hne, hdig, hval⟩ := toString_digits n
  refine ⟨?_, fun w hw hnd => ?_⟩
  · have hv : (⟨ws ++ (if neg then ['-'] else []) ++ (toString n).toList ++ rest⟩ : String) ≠ "" := by
      intro h
      have hl : ws ++ (if neg then ['-'] else []) ++ (toString n).toList ++ rest = [] :=
        congrArg String.data h
      exact hne (List.append_eq_nil.mp (List.append_eq_nil.mp hl).1).2
    rw [onParse_c opts hv, compressionLevel, stoi_eq neg spaces hne hdig stop, hval]
    dsimp only
    split_ifs <;> rfl
  · rw [onParse_c opts (fun h => hw (congrArg String.toList h)), compressionLevel,
      stoi_of_no_digit hnd]
    rfl

theorem spaced_negative_level_wraps :
    (∀ c ∈ [' '], isSpace c = true) ∧ (∀ c ∈ ['x'].head?, c.isDigit = false) ∧
      ((onParse Options.init ["-c", ⟨[' '] ++ (if true then ['-'] else []) ++ (toString 5).toList ++
          ['x']⟩] =
        (let v : Int := if true then -((5 : Nat) : Int) else ((5 : Nat) : Int)
          if v < -2 ^ 31 ∨ 2 ^ 31 ≤ v then .error "SynchroTraceGen compression level: out_of_range"
          else .ok { Options.init with genLog := some .text, primsPerStCompEv := (v % 2 ^ 32).toNat }))
        ∧ ∀ w : List Char, w ≠ [] → (∀ c ∈ w, c.isDigit = false) →
          onParse Options.init ["-c", ⟨w⟩] =
            .error "SynchroTraceGen compression level: invalid argument") := by
  have hws : ∀ c ∈ [' '], isSpace c = true := by decide
  have hrest : ∀ c ∈ ['x'].head?, c.isDigit = false := by simp
  exact ⟨hws, hrest, onParse_compression Options.init hws hrest true 5⟩

end Parse

end STGen
