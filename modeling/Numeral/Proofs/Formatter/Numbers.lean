import Numeral.Proofs.Conventions.Accepted
import Numeral.Proofs.Formatter.FixedPoint
import Numeral.Proofs.Value.Text

/-!
# Reading numbers by their texts

A formatter reads a number by the text that it converts to.  Digits alone, with a point if the
locale has one before its fractions, are read as the nearest double to what they denote
(`readBody_positional`).  A text with an exponent is not read at all, since every character of a
text that is read is white space, a digit or a sign that the reader looks for
(`Symbols.Spells.knows`).

So an American formatter for plain numbers reads a number back, without the sign of a zero, unless
the number is so small that it is written with an exponent (`parse_number`).
-/

namespace Numeral

open Text Decimal

/-! ## The characters of texts that are read -/

theorem Grouped.isDigit_or_eq {separator : Char} {text ds : List Char}
    (h : Grouped separator text ds) :
    ∀ ch ∈ text, ch.isDigit = true ∨ ch = separator := by
  induction h with
  | run hRun => exact fun ch hch => Or.inl (hRun.isDigit ch hch)
  | group hRun _ ih =>
    intro ch hch
    rcases List.mem_append.mp hch with hch | hch
    · exact Or.inl (hRun.isDigit ch hch)
    · rcases List.mem_cons.mp hch with hch | hch
      · exact Or.inr hch
      · exact ih ch hch

namespace Symbols

/-- The characters that are looked for, besides white space and digits. -/
def alphabet (s : Symbols) : List Char :=
  ['-', '\u2212', s.decimal, s.group] ++ (s.minus ++ (s.infinity ++ (s.leading ++ s.trailing)))

/-- The character may be part of a text that is read. -/
def Knows (s : Symbols) (ch : Char) : Prop :=
  isWhiteSpace ch = true ∨ ch.isDigit = true ∨ ch ∈ s.alphabet

variable {s : Symbols}

theorem knows_of_isBlank {w : List Char} (h : IsBlank w) : ∀ ch ∈ w, s.Knows ch :=
  fun ch hch => Or.inl (h ch hch)

theorem knows_of_isOptional {t a : List Char} (h : IsOptional t a)
    (ht : ∀ ch ∈ t, ch ∈ s.alphabet) :
    ∀ ch ∈ a, s.Knows ch := by
  rcases h with rfl | rfl
  · exact fun ch hch => absurd hch List.not_mem_nil
  · exact fun ch hch => Or.inr (Or.inr (ht ch hch))

theorem IsMinus.knows {negative : Bool} {m : List Char} (h : s.IsMinus negative m) :
    ∀ ch ∈ m, s.Knows ch := by
  intro ch hch
  cases h with
  | absent => exact absurd hch List.not_mem_nil
  | own => exact Or.inr (Or.inr (List.mem_append_right _ (List.mem_append_left _ hch)))
  | hyphen =>
    rw [List.mem_singleton.mp hch]
    exact Or.inr (Or.inr List.mem_cons_self)
  | sign =>
    rw [List.mem_singleton.mp hch]
    exact Or.inr (Or.inr (List.mem_cons_of_mem _ List.mem_cons_self))

theorem knows_decimal : s.Knows s.decimal := Or.inr (Or.inr (by simp [alphabet]))

theorem knows_of_grouped {text ds : List Char} (h : Grouped s.group text ds) :
    ∀ ch ∈ text, s.Knows ch := by
  intro ch hch
  rcases h.isDigit_or_eq ch hch with hDigit | rfl
  · exact Or.inr (Or.inl hDigit)
  · exact Or.inr (Or.inr (by simp [alphabet]))

theorem knows_of_isRun {ds : List Char} (h : IsRun ds) : ∀ ch ∈ ds, s.Knows ch :=
  fun ch hch => Or.inr (Or.inl (h.isDigit ch hch))

theorem IsBody.knows {body : Body} {text : List Char} (h : s.IsBody body text) :
    ∀ ch ∈ text, s.Knows ch := by
  cases h with
  | infinity _ => exact fun ch hch => Or.inr (Or.inr (by simp [alphabet, hch]))
  | integer hText => exact knows_of_grouped hText
  | decimal hText hRun =>
    exact List.forall_mem_append.mpr ⟨knows_of_grouped hText,
      List.forall_mem_cons.mpr ⟨knows_decimal, knows_of_isRun hRun⟩⟩
  | fraction hRun => exact List.forall_mem_cons.mpr ⟨knows_decimal, knows_of_isRun hRun⟩

/-- **No other characters stand in a text that is read.** -/
theorem Spells.knows {cs : List Char} {r : Reading} (h : s.Spells cs r) :
    ∀ ch ∈ cs, s.Knows ch := by
  have hLeading : ∀ ch ∈ s.leading, ch ∈ s.alphabet := fun ch hch => by simp [alphabet, hch]
  have hTrailing : ∀ ch ∈ s.trailing, ch ∈ s.alphabet := fun ch hch => by simp [alphabet, hch]
  obtain ⟨hFront, hBody, hBack⟩ := h
  obtain ⟨hw₀, hBefore, hw₁, hAffix, hw₂, hAfter, hw₃, -⟩ := hFront
  obtain ⟨hw₄, hAffix', hw₅⟩ := hBack
  simp only [List.forall_mem_append]
  exact ⟨⟨knows_of_isBlank hw₀, hBefore.knows, knows_of_isBlank hw₁,
    knows_of_isOptional hAffix hLeading, knows_of_isBlank hw₂, hAfter.knows,
    knows_of_isBlank hw₃⟩, hBody.knows, knows_of_isBlank hw₄,
    knows_of_isOptional hAffix' hTrailing, knows_of_isBlank hw₅⟩

theorem isFront_hyphen (s : Symbols) (negative : Bool) :
    s.IsFront negative (if negative then ['-'] else []) := by
  have hNoAffix : IsOptional s.leading [] := Or.inl rfl
  cases negative with
  | false =>
    have hFront := IsFront.intro isBlank_nil .absent isBlank_nil hNoAffix isBlank_nil .absent
      isBlank_nil (Or.inl rfl)
    exact hFront
  | true =>
    have hFront := IsFront.intro isBlank_nil .hyphen isBlank_nil hNoAffix isBlank_nil .absent
      isBlank_nil (Or.inr rfl)
    exact hFront

theorem isBack_nil (s : Symbols) : s.IsBack [] := by
  have hNoAffix : IsOptional s.trailing [] := Or.inl rfl
  exact .intro isBlank_nil hNoAffix isBlank_nil

/-- A body by itself, or behind a hyphen, is a number. -/
theorem spells_signed {s : Symbols} {body : Body} {text : List Char} (h : s.IsBody body text)
    (negative : Bool) : s.Spells (signed negative text) ⟨negative, body⟩ := by
  have hText : signed negative text = (if negative then ['-'] else []) ++ (text ++ []) := by
    rw [List.append_nil]
    cases negative <;> rfl
  rw [hText]
  exact .intro (isFront_hyphen s negative) h (isBack_nil s)

end Symbols

/-! ## Reading the texts of numbers -/

namespace Conventions

variable {c : Conventions}

/-- A text with a character that no text of a number holds is not read. -/
theorem readBody_eq_nan {cs : List Char} {ch : Char} (hMem : ch ∈ cs)
    (hMark : isDirectionMark ch = false) (hSelf : c.numberingSystem.toAscii ch = ch)
    (hUnknown : ¬ c.symbols.Knows ch) : c.readBody cs = .nan := by
  have hNone : c.symbols.read? (c.normalize cs) = none := by
    refine Option.eq_none_iff_forall_ne_some.mpr fun r hr => hUnknown ?_
    refine (Symbols.Spells.of_read? hr).knows ch ?_
    rw [← hSelf]
    exact List.mem_map_of_mem (List.mem_filter.mpr ⟨hMem, by rw [hMark, Bool.not_false]⟩)
  rw [readBody, hNone]
  rfl

/-- The digits of ASCII, the point and the hyphen are read as they stand. -/
theorem normalize_eq_self {cs : List Char}
    (h : ∀ ch ∈ cs, ch.isDigit = true ∨ ch = '.' ∨ ch = '-') : c.normalize cs = cs := by
  have hAll : ∀ t ∈ NumberingSystem.all, ∀ d ∈ '.' :: '-' :: NumberingSystem.latn.digits,
      t.toAscii d = d ∧ isDirectionMark d = false := by
    decide
  have hSelf : ∀ ch ∈ cs, c.numberingSystem.toAscii ch = ch ∧ isDirectionMark ch = false := by
    intro ch hch
    refine hAll _ c.numberingSystem.mem_all ch ?_
    rcases h ch hch with hDigit | rfl | rfl
    · exact List.mem_cons_of_mem _ (List.mem_cons_of_mem _
        (NumberingSystem.mem_latn_digits_iff.mpr hDigit))
    · exact List.mem_cons_self
    · exact List.mem_cons_of_mem _ List.mem_cons_self
  have hMarks : stripMarks cs = cs :=
    List.filter_eq_self.mpr fun ch hch => by rw [(hSelf ch hch).2, Bool.not_false]
  rw [normalize, hMarks]
  exact (List.map_congr_left fun ch hch => (hSelf ch hch).1).trans (List.map_id cs)

theorem mem_positional {text : List Char} {q : ℚ} (h : IsPositional text q) (negative : Bool) :
    ∀ ch ∈ signed negative text, ch.isDigit = true ∨ ch = '.' ∨ ch = '-' := by
  have hText : ∀ ch ∈ text, ch.isDigit = true ∨ ch = '.' ∨ ch = '-' := by
    cases h with
    | whole _ hDigits => exact fun ch hch => Or.inl (hDigits ch hch)
    | pointed _ hDigits _ hDigits' =>
      exact List.forall_mem_append.mpr ⟨fun ch hch => Or.inl (hDigits ch hch),
        List.forall_mem_cons.mpr ⟨Or.inr (Or.inl rfl), fun ch hch => Or.inl (hDigits' ch hch)⟩⟩
  rw [signed]
  split
  · exact List.forall_mem_cons.mpr ⟨Or.inr (Or.inr rfl), hText⟩
  · exact hText

/-- Where the decimal sign is a point, digits are read as the number that they denote. -/
theorem readBody_positional (hs : c.symbols.Distinct) (hDecimal : c.symbols.decimal = '.')
    {text : List Char} {q : ℚ} (h : IsPositional text q) (negative : Bool) :
    (c.readBody (signed negative text)).IsNearest negative q := by
  have hNormal := c.normalize_eq_self (mem_positional h negative)
  have hReading : ∃ integer fraction, c.symbols.IsBody (.digits integer fraction) text ∧
      q = readDigits integer + readDigits fraction / 10 ^ fraction.length := by
    cases h with
    | whole hne hDigits =>
      refine ⟨_, [], .integer (.run ⟨hne, hDigits⟩), ?_⟩
      rw [readDigits_nil, Nat.cast_zero, zero_div, add_zero]
    | pointed hne hDigits hne' hDigits' =>
      refine ⟨_, _, ?_, rfl⟩
      rw [← hDecimal]
      exact .decimal (.run ⟨hne, hDigits⟩) ⟨hne', hDigits'⟩
  obtain ⟨integer, fraction, hBody, rfl⟩ := hReading
  have hSpells := Symbols.spells_signed hBody negative
  rw [← hNormal] at hSpells
  rw [Legible.readBody_of_read? (hs.read?_eq_some_iff.mpr hSpells)]
  have hNearest := Binary64.isNearest_ofDecimal negative (readDigits (integer ++ fraction))
    (-(fraction.length : Int))
  have hValue := toRat_readDigits negative integer fraction 0
  rw [zpow_zero, mul_one, zero_sub] at hValue
  rwa [← hValue]

/-- A letter is not read, unless it is one of a sign that is looked for. -/
theorem readBody_of_mem_e {cs : List Char} (h : 'e' ∈ cs) (hAlphabet : 'e' ∉ c.symbols.alphabet) :
    c.readBody cs = .nan := by
  have hInert : IsInert 'e' := .of_isAlpha (by decide)
  refine readBody_eq_nan h (by decide) (hInert.toAscii _) ?_
  rintro (hSpace | hDigit | hMem)
  · exact absurd hSpace (by decide)
  · exact absurd hDigit (by decide)
  · exact hAlphabet hMem

/-- **A number is read back by its text**, without the sign of a zero, if it is written by its
digits.  If it is written with an exponent, it is not read. -/
theorem readBody_toText (hs : c.symbols.Distinct) (hDecimal : c.symbols.decimal = '.')
    (hAlphabet : 'e' ∉ c.symbols.alphabet) (n : Number) (hLess : n.magnitude < 10 ^ 21) :
    (n.magnitude = 0 ∨ 1 / 10 ^ 5 ≤ n.magnitude →
      c.readBody n.toText = n.toBinary64.unsignedZero) ∧
    (n.magnitude ≠ 0 → n.magnitude < 1 / 10 ^ 5 → c.readBody n.toText = .nan) := by
  constructor
  · intro hGreat
    obtain ⟨negative, text, q, hText, hPositional, hNearest⟩ := n.isPositional_toText hGreat hLess
    rw [hText]
    exact (readBody_positional hs hDecimal hPositional negative).unique hNearest
  · intro hPos hSmall
    exact readBody_of_mem_e (n.mem_e_toText hPos hSmall) hAlphabet

end Conventions

/-! ## American formatters -/

namespace Database

variable {requested : Locales} {options : Options} {f : Formatter Id Conventions UnsupportedLocale}
  {r : Resolved}

/-- The conventions of a formatter over the standard locales, from what it tells. -/
theorem exists_conventions
    (hf : Id.run ((standard.formatter.configure requested options).run) = .ok f)
    (hr : f.resolvedOptions = .ok r) :
    ∃ t config suggested,
      (LanguageTag.parse? r.locale).map (·.baseName) = some t.baseName ∧ r.style = config.style ∧
        ∀ v s, v.toText? = some s → Id.run (f.parse v).run =
          .ok ((Conventions.ofTag standard t config suggested).read s.toList) := by
  obtain ⟨tags, config, t, -, -, ht, hBound⟩ := configure_eq_ok_iff.mp hf
  generalize (standard.negotiated tags config).numberingSystem.getD "" = suggested at hBound
  obtain ⟨u, hu, hName, -⟩ :=
    parse?_report standard (LanguageTag.isCanonical_of_parse? ht) rfl suggested
  rw [hBound] at hr
  cases hr
  refine ⟨t, config, suggested, ?_, rfl, fun v s hv => ?_⟩
  · show (LanguageTag.parse? (Conventions.report standard t suggested).locale).map (·.baseName) = _
    rw [hu, Option.map_some, hName]
  · rw [hBound, Formatter.parse, hv]
    rfl

/-- In American English the decimal sign is a point, and no sign that is looked for has a letter. -/
theorem symbols_american {c : Conventions} (hs : c.settings = standard.settingsOrDefault "en-US")
    (ha : c.affixes = Affixes.none) :
    c.symbols.decimal = '.' ∧ 'e' ∉ c.symbols.alphabet := by
  have hAll : ∀ s ∈ [standard.settingsOrDefault "en-US"], s.decimal = '.' ∧
      'e' ∉ (Conventions.symbols ⟨s, .latn, {}, .none⟩).alphabet := by
    decide +kernel
  have hSymbols : c.symbols = Conventions.symbols ⟨c.settings, .latn, {}, .none⟩ := by
    rw [Conventions.symbols, ha]
    rfl
  rw [hSymbols, hs]
  exact hAll _ List.mem_cons_self

/-- **An American formatter for plain numbers reads a number back**, without the sign of a zero, if
it is at least `1 / 10 ^ 5` or zero and less than `10 ^ 21`: its text is digits with an optional
point.  A smaller one has a text with an exponent, and is not read. -/
theorem parse_number (hf : Id.run ((standard.formatter.configure requested options).run) = .ok f)
    (hr : f.resolvedOptions = .ok r)
    (hLocale : (LanguageTag.parse? r.locale).map (·.baseName) = some "en-US")
    (hStyle : r.style = .decimal) (n : Number) (hLess : n.magnitude < 10 ^ 21) :
    ∃ x, (Value.number n).toNumber? = some x ∧
      (n.magnitude = 0 ∨ 1 / 10 ^ 5 ≤ n.magnitude →
        (∃ negative text q, n.toText = signed negative text ∧ IsPositional text q) ∧
          Id.run (f.parse (.number n)).run = .ok x.unsignedZero) ∧
      (n.magnitude ≠ 0 → n.magnitude < 1 / 10 ^ 5 →
        'e' ∈ n.toText ∧ Id.run (f.parse (.number n)).run = .ok .nan) := by
  obtain ⟨t, config, suggested, hTag, hConfig, hParse⟩ := exists_conventions hf hr
  have hName : t.baseName = "en-US" := Option.some.inj (hTag.symm.trans hLocale)
  have hDecimal : config.style = .decimal := hConfig.symm.trans hStyle
  have hSettings : (Conventions.ofTag standard t config suggested).settings =
      standard.settingsOrDefault "en-US" := by
    rw [← hName]
    rfl
  have hAffixes : (Conventions.ofTag standard t config suggested).affixes = Affixes.none := by
    rw [Conventions.ofTag, hDecimal]
    rfl
  have hDistinct := Conventions.distinct_standard t config suggested
  have hRead : ∀ cs, (Conventions.ofTag standard t config suggested).read cs =
      (Conventions.ofTag standard t config suggested).readBody cs := by
    intro cs
    rw [Conventions.read, Conventions.ofTag, hDecimal]
  have hText : Id.run (f.parse (.number n)).run =
      .ok ((Conventions.ofTag standard t config suggested).readBody n.toText) := by
    rw [hParse _ _ rfl, String.toList_ofList, hRead]
  rw [hText]
  generalize Conventions.ofTag standard t config suggested = c at hSettings hAffixes hDistinct
  obtain ⟨hPoint, hAlphabet⟩ := symbols_american hSettings hAffixes
  obtain ⟨hGreat, hSmall⟩ := Conventions.readBody_toText hDistinct hPoint hAlphabet n hLess
  refine ⟨n.toBinary64, rfl, fun h => ?_, fun hPos h => ?_⟩
  · obtain ⟨negative, text, q, hText, hPositional, -⟩ := n.isPositional_toText h hLess
    exact ⟨⟨negative, text, q, hText, hPositional⟩, congrArg Except.ok (hGreat h)⟩
  · exact ⟨n.mem_e_toText hPos h, congrArg Except.ok (hSmall hPos h)⟩

/-- A formatter that is asked for American English alone tells this locale and writes plain
numbers. -/
theorem exists_american :
    ∃ (f : Formatter Id Conventions UnsupportedLocale) (r : Resolved),
      Id.run ((standard.formatter.configure ["en-US"] ∅).run) = .ok f ∧ f.resolvedOptions = .ok r ∧
        (LanguageTag.parse? r.locale).map (·.baseName) = some "en-US" ∧ r.style = .decimal := by
  have hTold : (Id.run ((standard.formatter.configure ["en-US"] ∅).run) >>= fun f =>
      f.resolvedOptions.map fun r =>
        ((LanguageTag.parse? r.locale).map (·.baseName), r.style)).toOption =
      some (some "en-US", .decimal) := by
    decide +kernel
  obtain ⟨f, hf, hTold⟩ := bind_eq_ok_iff.mp (ok_of_toOption hTold)
  obtain ⟨r, hr, hTold⟩ := map_eq_ok_iff.mp hTold
  obtain ⟨hLocale, hStyle⟩ := Prod.mk.inj hTold
  exact ⟨f, r, hf, hr, hLocale, hStyle⟩

/-- Minus a quarter is read back. -/
theorem parse_number_quarter :
    ∃ (f : Formatter Id Conventions UnsupportedLocale) (x : Magnitude), x.toRat = 1 / 4 ∧
      Id.run ((standard.formatter.configure ["en-US"] ∅).run) = .ok f ∧
        Id.run (f.parse (.number (.real true x))).run = .ok (.finite true x) := by
  obtain ⟨f, r, hf, hr, hLocale, hStyle⟩ := exists_american
  have hQuarter : (⟨pow2 52, -54, by decide⟩ : Magnitude).toRat = 1 / 4 := by
    rw [Magnitude.toRat_eq, cast_pow2]
    norm_num
  refine ⟨f, ⟨pow2 52, -54, by decide⟩, hQuarter, hf, ?_⟩
  obtain ⟨x, hx, hGreat, -⟩ := parse_number hf hr hLocale hStyle
    (.real true ⟨pow2 52, -54, by decide⟩) (by rw [Number.magnitude, hQuarter]; norm_num)
  cases hx
  exact (hGreat (by rw [Number.magnitude, hQuarter]; norm_num)).2

/-- Two millionths are written with an exponent, and not read. -/
theorem parse_number_exponent :
    ∃ (f : Formatter Id Conventions UnsupportedLocale) (r : Resolved) (n : Number),
      Id.run ((standard.formatter.configure ["en-US"] ∅).run) = .ok f ∧ f.resolvedOptions = .ok r ∧
        (LanguageTag.parse? r.locale).map (·.baseName) = some "en-US" ∧ r.style = .decimal ∧
        1 / 10 ^ 6 ≤ n.magnitude ∧ n.magnitude < 10 ^ 21 ∧ n.toText = "2e-6".toList ∧
        Id.run (f.parse (.number n)).run = .ok .nan ∧ (Value.number n).toNumber? ≠ some .nan := by
  have hMagnitude : (⟨4722366482869645, -71, by decide⟩ : Magnitude).toRat =
      4722366482869645 / 2 ^ 71 := by
    rw [Magnitude.toRat_eq]
    norm_num
  have hParsed : (Id.run ((standard.formatter.configure ["en-US"] ∅).run) >>= fun f =>
      Id.run (f.parse (.number (.real false ⟨4722366482869645, -71, by decide⟩))).run).toOption =
      some .nan := by
    decide +kernel
  obtain ⟨f, r, hf, hr, hLocale, hStyle⟩ := exists_american
  obtain ⟨f', hf', hNan⟩ := bind_eq_ok_iff.mp (ok_of_toOption hParsed)
  obtain rfl := Except.ok.inj (hf.symm.trans hf')
  refine ⟨f, r, .real false ⟨4722366482869645, -71, by decide⟩, hf, hr, hLocale, hStyle, ?_, ?_,
    by decide +kernel, hNan, Binary64.noConfusion ∘ Option.some.inj⟩
  · rw [Number.magnitude, hMagnitude]
    norm_num
  · rw [Number.magnitude, hMagnitude]
    norm_num

end Database

end Numeral
