import Echadron.Tool.RuleMatch

namespace Echadron.Tool
open Lib List

/-- Escaped literals are matched by the texts that are equal to them, up to case where it does not
matter. -/
structure MatchesLiterals (glob : Picomatch) (fold : Bool → Text → Text) : Prop where
  isMatch : ∀ nocase value literal, literal ≠ [] → glob.isMatch nocase value (escapeRuleSubjectLiteral literal) =
      some (decide (fold nocase value = fold nocase literal))
  caseSensitive : ∀ value, fold false value = value

/-- The name of a tool has no characters that are special to a glob, and nothing to trim. -/
structure IsToolName (toolName : Text) : Prop where
  nonempty : toolName ≠ []
  plain : ∀ c ∈ toolName, c ∉ GLOB_LITERAL_SPECIAL
  trimmed : ∀ c ∈ toolName, isTrimmed c = false

theorem escape_cons (c : Char) (subject : Text) : escapeRuleSubjectLiteral (c :: subject) =
      (if c ∈ GLOB_LITERAL_SPECIAL then ['\\', c] else [c]) ++ escapeRuleSubjectLiteral subject :=
  flatMap_cons

theorem escape_plain (h : ∀ c ∈ subject, c ∉ GLOB_LITERAL_SPECIAL) : escapeRuleSubjectLiteral subject = subject := by
  induction subject with
  | nil => rfl
  | cons c subject ih =>
    obtain ⟨hc, hrest⟩ := forall_mem_cons.mp h
    rw [escape_cons, if_neg hc, ih hrest]
    rfl

theorem escape_ne_nil (h : subject ≠ []) : escapeRuleSubjectLiteral subject ≠ [] := by
  cases subject with
  | nil => exact absurd rfl h
  | cons c subject =>
    rw [escape_cons]
    split <;> simp

theorem escape_injective (h : escapeRuleSubjectLiteral s = escapeRuleSubjectLiteral t) : s = t := by
  induction s generalizing t with
  | nil =>
    cases t with
    | nil => rfl
    | cons d t => exact absurd h.symm (escape_ne_nil (by simp))
  | cons c s ih =>
    cases t with
    | nil => exact absurd h (escape_ne_nil (by simp))
    | cons d t =>
      have hback : ∀ e, e ∉ GLOB_LITERAL_SPECIAL → e ≠ '\\' := by
        intro e he heq
        subst heq
        exact he (by decide)
      rw [escape_cons, escape_cons] at h
      by_cases hc : c ∈ GLOB_LITERAL_SPECIAL
      · by_cases hd : d ∈ GLOB_LITERAL_SPECIAL
        · simp only [hc, hd, if_true, cons_append, cons.injEq, true_and] at h
          rw [h.1, ih h.2]
        · simp only [hc, hd, if_true, if_false, cons_append, cons.injEq] at h
          exact absurd h.1.symm (hback d hd)
      · by_cases hd : d ∈ GLOB_LITERAL_SPECIAL
        · simp only [hc, hd, if_true, if_false, cons_append, cons.injEq] at h
          exact absurd h.1 (hback c hc)
        · simp only [hc, hd, if_false, cons_append, cons.injEq] at h
          rw [h.1, ih h.2]

theorem strip_eq_or (value : Text) : stripLeadingDotSlash value = value ∧ (∀ rest, value ≠ '.' :: '/' :: rest) ∨
      value = '.' :: '/' :: stripLeadingDotSlash value := by
  unfold stripLeadingDotSlash
  split
  · exact .inr rfl
  · rename_i h
    exact .inl ⟨rfl, h⟩

theorem of_escape_eq_cons (hc : c ≠ '\\') (h : escapeRuleSubjectLiteral subject = c :: rest) :
    ∃ subject', subject = c :: subject' ∧ rest = escapeRuleSubjectLiteral subject' := by
  cases subject with
  | nil => cases h
  | cons d subject =>
    rw [escape_cons] at h
    split at h
    · exact absurd (cons.inj h).1.symm hc
    · obtain ⟨hd, hrest⟩ := cons.inj h
      exact ⟨subject, by rw [hd], hrest.symm⟩

theorem strip_escape (subject : Text) : stripLeadingDotSlash (escapeRuleSubjectLiteral subject) =
      escapeRuleSubjectLiteral (stripLeadingDotSlash subject) := by
  rcases strip_eq_or subject with ⟨hsame, hnone⟩ | hdot
  · rw [hsame]
    rcases strip_eq_or (escapeRuleSubjectLiteral subject) with ⟨hkeep, _⟩ | hstrip
    · exact hkeep
    · obtain ⟨subject', hsubject, hslash⟩ := of_escape_eq_cons (by decide) hstrip
      obtain ⟨rest, hsubject', _⟩ := of_escape_eq_cons (by decide) hslash.symm
      rw [hsubject'] at hsubject
      exact absurd hsubject (hnone rest)
  · rw [hdot]
    rfl

def SameText (fold : Text → Text) (a b : Text) : Prop :=
  fold a = fold b ∨ fold (stripLeadingDotSlash a) = fold (stripLeadingDotSlash b)

instance SameText.decidable (fold : Text → Text) (a b : Text) : Decidable (SameText fold a b) :=
  inferInstanceAs (Decidable (_ ∨ _))

theorem globMatch_escape (h : MatchesLiterals glob fold) (hl : stripLeadingDotSlash literal ≠ [])
    (value : Text) (nocase : Bool) :
    globMatch glob value (escapeRuleSubjectLiteral literal) nocase =
      some (decide (SameText (fold nocase) value literal)) := by
  have hne : literal ≠ [] := by
    intro hnil
    subst hnil
    exact hl rfl
  unfold globMatch SameText
  rw [h.isMatch nocase value literal hne]
  by_cases heq : fold nocase value = fold nocase literal
  · simp [heq]
  · simp only [heq, decide_false, false_or, strip_escape]
    split
    · rename_i hsame
      have hliteral := escape_injective hsame.2
      rw [hsame.1, hliteral]
      simp [heq]
    · exact h.isMatch nocase _ _ hl

theorem matchRuleSubjects_escape (hs : subject ≠ []) (value : Text) (test : Text → Text → Option Bool) :
    matchRuleSubjects (escapeRuleSubjectLiteral subject) [value] test =
      someMatch (test (escapeRuleSubjectLiteral subject)) [value] := by
  unfold matchRuleSubjects
  split
  · rename_i hnil
    exact absurd hnil (escape_ne_nil hs)
  · rename_i rest hbang
    obtain ⟨subject', hsubject, hrest⟩ := of_escape_eq_cons (by decide) hbang
    subst hsubject
    cases hbang
  · rfl

theorem someMatch_singleton (test : α → Option Bool) (a : α) : someMatch test [a] = test a := by
  simp only [someMatch]
  split
  · rename_i h
    exact h.symm
  · rfl

theorem trimText_literalRulePattern (h : IsToolName toolName) (subject : Text) :
    trimText (literalRulePattern toolName subject) = literalRulePattern toolName subject := by
  obtain ⟨c, name, rfl⟩ := exists_cons_of_ne_nil h.nonempty
  have hc := h.trimmed c (mem_cons_self ..)
  have hdrop : (literalRulePattern (c :: name) subject).dropWhile isTrimmed = literalRulePattern (c :: name) subject := by
    simp [literalRulePattern, hc]
  rw [trimText, hdrop, literalRulePattern, rdropWhile_concat, if_neg (by decide)]

theorem parsePattern_literalRulePattern (h : IsToolName toolName) (hs : subject ≠ []) :
    parsePattern (literalRulePattern toolName subject) =
      .ok { toolName := toolName, argPattern := some (escapeRuleSubjectLiteral subject) } := by
  have hparen : ∀ c ∈ toolName, decide (c ≠ '(') = true := by
    intro c hc
    apply decide_eq_true
    intro heq
    subst heq
    exact h.plain _ hc (by decide)
  have htake : (literalRulePattern toolName subject).takeWhile (· ≠ '(') = toolName := by
    simp only [literalRulePattern, append_assoc]
    rw [takeWhile_append_of_pos hparen]
    simp
  have hdrop : (literalRulePattern toolName subject).dropWhile (· ≠ '(') =
      '(' :: escapeRuleSubjectLiteral subject ++ [')'] := by
    simp only [literalRulePattern, append_assoc]
    rw [dropWhile_append_of_pos hparen]
    simp
  have hmem : '(' ∈ literalRulePattern toolName subject := by simp [literalRulePattern]
  have hne : literalRulePattern toolName subject ≠ [] := by simp [literalRulePattern]
  have hlast : (literalRulePattern toolName subject).getLast? = some ')' := getLast?_concat ..
  have hescape := escape_ne_nil hs
  unfold parsePattern
  simp only [trimText_literalRulePattern h, htake, hdrop]
  simp [hne, hmem, hlast, h.nonempty, hescape]

theorem matchPermissionRule_literalRulePattern (hglob : MatchesLiterals glob fold)
    (h : IsToolName toolName) (hs : subject ≠ [])
    (htest : test (escapeRuleSubjectLiteral subject) = some hit) :
    matchPermissionRule glob (literalRulePattern toolName subject) toolName (some test) =
      some (if hit then some { pattern := literalRulePattern toolName subject, strategy := .matchesRule, hasRuleArgs := true }
        else none) := by
  have hname : glob.isMatch false toolName toolName = some true := by
    have hlaw := hglob.isMatch false toolName toolName h.nonempty
    rw [escape_plain h.plain] at hlaw
    rw [hlaw, decide_eq_true rfl]
  unfold matchPermissionRule
  rw [parsePattern_literalRulePattern h hs]
  simp [hname, htest]

theorem someMatch_eq {P : α → Prop} [DecidablePred P]
    (h : ∀ a ∈ l, test a = some (decide (P a))) : someMatch test l = some (decide (∃ a ∈ l, P a)) := by
  induction l with
  | nil => simp [someMatch]
  | cons a l ih =>
    obtain ⟨ha, hl⟩ := forall_mem_cons.mp h
    rw [someMatch, ha]
    by_cases hP : P a
    · simp [hP]
    · simp [hP, ih hl]

def SameVariant (fold : Text → Text) (pathe : Pathe) (options : PermissionPathMatchOptions) (value subject : Text) :
    Prop :=
  let pathClass := pathMatchSemantics value subject options
  ∃ pair ∈ (pathVariants pathe value pathClass options).product (pathVariants pathe subject pathClass options),
    SameText fold pair.1 pair.2

instance SameVariant.decidable (fold : Text → Text) (pathe : Pathe) (options : PermissionPathMatchOptions)
    (value subject : Text) : Decidable (SameVariant fold pathe options value subject) :=
  inferInstanceAs (Decidable (∃ pair ∈ _, _))

def PlainVariants (pathe : Pathe) (options : PermissionPathMatchOptions) (pathClass : PathClass) (subject : Text) :
    Prop :=
  ∀ variant ∈ pathVariants pathe subject pathClass options,
    (∀ c ∈ variant, c ∉ GLOB_LITERAL_SPECIAL) ∧ stripLeadingDotSlash variant ≠ []

theorem mem_pathVariants (pathe : Pathe) (value : Text) (pathClass : PathClass) (options : PermissionPathMatchOptions) :
    value ∈ pathVariants pathe value pathClass options := by
  unfold pathVariants
  rw [mem_eraseDups]
  cases pathClass <;> exact mem_cons_self ..

theorem pathGlobMatch_self (hglob : MatchesLiterals glob fold) (pathe : Pathe) (options : PermissionPathMatchOptions)
    (hs : subject ≠ []) :
    pathGlobMatch glob pathe subject (escapeRuleSubjectLiteral subject) options = some true := by
  unfold pathGlobMatch
  simp only [globMatch, hglob.isMatch _ subject subject hs, decide_true]

theorem pathGlobMatch_plain (hglob : MatchesLiterals glob fold)
    (hplain : PlainVariants pathe options (pathMatchSemantics value subject options) subject) :
    pathGlobMatch glob pathe value (escapeRuleSubjectLiteral subject) options =
      some (decide (SameVariant (fold (options.caseInsensitivePaths.getD true)) pathe options value subject)) := by
  generalize hcase : options.caseInsensitivePaths.getD true = nocase
  have hself := hplain subject (mem_pathVariants ..)
  have hmatch : ∀ pair ∈ (pathVariants pathe value (pathMatchSemantics value subject options) options).product
      (pathVariants pathe subject (pathMatchSemantics value subject options) options),
      globMatch glob pair.1 pair.2 nocase = some (decide (SameText (fold nocase) pair.1 pair.2)) := by
    intro pair hpair
    obtain ⟨hspecial, hne⟩ := hplain pair.2 (pair_mem_product.mp hpair).2
    have h := globMatch_escape hglob hne pair.1 nocase
    rw [escape_plain hspecial] at h
    exact h
  have hfirst := globMatch_escape hglob hself.2 value nocase
  rw [escape_plain hself.1] at hfirst ⊢
  unfold pathGlobMatch
  simp only [hcase, hfirst]
  by_cases hsame : SameText (fold nocase) value subject
  · have hvariant : SameVariant (fold nocase) pathe options value subject :=
      ⟨(value, subject), pair_mem_product.mpr ⟨mem_pathVariants .., mem_pathVariants ..⟩, hsame⟩
    rw [decide_eq_true hvariant, decide_eq_true hsame]
  · rw [decide_eq_false hsame]
    exact someMatch_eq hmatch

def literalGlob : Picomatch where
  isMatch _ value pattern := if pattern = [] then none else some (decide (pattern = escapeRuleSubjectLiteral value))

theorem matchesLiterals_literalGlob : MatchesLiterals literalGlob fun _ value => value where
  isMatch nocase value literal h := by
    rw [literalGlob]
    simp only [escape_ne_nil h, if_false, Option.some.injEq, decide_eq_decide]
    constructor
    · intro heq
      exact (escape_injective heq).symm
    · intro heq
      rw [heq]
  caseSensitive _ := rfl

end Echadron.Tool
