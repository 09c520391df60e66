import Mathlib
import Overlay.Proofs.Keyspace.Digits

/-!
Identifiers as text. Reading accepts, in either case, exactly the texts that writing produces, and
tells of any other text what is wrong with it: first its length, then the first character that is no
digit at all, then the first digit that the base does not have.
-/

namespace Overlay.Keyspace

/-- The hexadecimal digits by their values. -/
def hexDigits : List Char :=
  ['0', '1', '2', '3', '4', '5', '6', '7', '8', '9', 'a', 'b', 'c', 'd', 'e', 'f']

/-- A character stands for a digit, in either case. -/
def Denotes (c : Char) (d : Nat) : Prop := hexDigits[d]? = some c.toLower

instance (c : Char) (d : Nat) : Decidable (Denotes c d) :=
  inferInstanceAs (Decidable (_ = _))

theorem Denotes.unique {c : Char} {d e : Nat} (hd : Denotes c d) (he : Denotes c e) : d = e := by
  have hnodup : hexDigits.Nodup := by decide
  obtain ⟨hlt, -⟩ := List.getElem?_eq_some_iff.mp hd
  exact (List.getElem?_inj hlt hnodup).mp (Eq.trans hd he.symm)

theorem toNat_le_toLower (c : Char) : c.toNat ≤ c.toLower.toNat := by
  unfold Char.toLower
  split
  case isTrue hupper =>
    have hle : c.val.toNat ≤ 90 := hupper.2
    have hstep : (32 : UInt32).toNat = 32 := rfl
    change c.val.toNat ≤ (c.val + 32).toNat
    rw [UInt32.toNat_add]
    omega
  case isFalse => exact Nat.le_refl _

theorem Denotes.bounds {c : Char} {d : Nat} (h : Denotes c d) : c.toNat < 128 ∧ d < 16 := by
  obtain ⟨hd, -⟩ := List.getElem?_eq_some_iff.mp h
  have hall : ∀ x ∈ hexDigits, x.toNat < 128 := by simp [hexDigits]
  have hlower := hall c.toLower (List.mem_of_getElem? h)
  have hle := toNat_le_toLower c
  exact ⟨by omega, hd⟩

theorem denotes_iff_digitChar {c : Char} {d : Nat} :
    Denotes c d ↔ d < 16 ∧ d.digitChar = c.toLower := by
  have hall : ∀ d < 16, hexDigits[d]? = some d.digitChar := by decide
  constructor
  · intro h
    have hd := h.bounds.2
    rw [Denotes, hall d hd, Option.some.injEq] at h
    exact ⟨hd, h⟩
  · rintro ⟨hd, hchar⟩
    rw [Denotes, hall d hd, hchar]

/-- Why a text names no identifier of a space. -/
inductive Refused (space : Space) (text : String) : Fault → Prop where
  | length (hlength : text.length ≠ space.length) :
    Refused space text (.length space.length text.length)
  | character {before after : List Char} {c : Char} (hlength : text.length = space.length)
      (hsplit : text.toList = before ++ c :: after)
      (hbefore : ∀ b ∈ before, ∃ d, Denotes b d) (hc : ¬∃ d, Denotes c d) :
    Refused space text (.character before.length c)
  | digit {before after : List Char} {c : Char} {d : Nat} (hlength : text.length = space.length)
      (hdigits : ∀ b ∈ text.toList, ∃ e, Denotes b e)
      (hsplit : text.toList = before ++ c :: after)
      (hbefore : ∀ b ∈ before, ∃ e < space.base, Denotes b e) (hc : Denotes c d)
      (hd : space.base ≤ d) :
    Refused space text (.digit before.length d space.base)

namespace Id

theorem hexValue?_bounds {c : Char} {d : Nat} (h : hexValue? c = some d) :
    c.toNat < 128 ∧ d < 16 := by
  have hle {a b : Char} : a ≤ b ↔ a.toNat ≤ b.toNat := Iff.rfl
  simp only [hexValue?, hle, Char.reduceToNat] at h
  split at h
  · cases h
    omega
  · split at h
    · cases h
      omega
    · split at h
      · cases h
        omega
      · cases h

/-- The value of a character is the digit that it stands for. -/
theorem hexValue?_eq_some {c : Char} {d : Nat} : hexValue? c = some d ↔ Denotes c d := by
  have hascii : ∀ k < 128, ∀ d < 16,
      (hexValue? (Char.ofNat k) = some d ↔ Denotes (Char.ofNat k) d) := by
    decide +kernel
  have hsmall (hc : c.toNat < 128 ∧ d < 16) : hexValue? c = some d ↔ Denotes c d := by
    have h := hascii c.toNat hc.1 d hc.2
    rwa [Char.ofNat_toNat] at h
  constructor
  · intro h
    exact (hsmall (hexValue?_bounds h)).mp h
  · intro h
    exact (hsmall h.bounds).mpr h

theorem hexValue?_eq_none {c : Char} : hexValue? c = none ↔ ¬∃ d, Denotes c d := by
  rw [Option.eq_none_iff_forall_ne_some, not_exists]
  exact forall_congr' fun d => not_congr hexValue?_eq_some

theorem readCharacters_eq_ok {position : Nat} {cs : List Char} {ds : List Nat} :
    readCharacters position cs = .ok ds ↔ List.Forall₂ Denotes cs ds := by
  induction cs generalizing position ds with
  | nil =>
    rw [readCharacters, List.forall₂_nil_left_iff, Except.ok.injEq]
    exact eq_comm
  | cons c cs ih =>
    rw [readCharacters]
    cases hc : hexValue? c with
    | none =>
      rw [hexValue?_eq_none] at hc
      constructor
      · intro h
        cases h
      · intro h
        cases h with
        | cons hd _ => exact absurd ⟨_, hd⟩ hc
    | some d =>
      rw [hexValue?_eq_some] at hc
      constructor
      · intro h
        cases hrest : readCharacters (position + 1) cs with
        | error fault =>
          rw [hrest] at h
          cases h
        | ok es =>
          rw [hrest] at h
          cases h
          exact .cons hc (ih.mp hrest)
      · intro h
        cases h with
        | cons hd hrest =>
          rw [ih.mpr hrest, hc.unique hd]
          rfl

/-- Reading stops at the first character that is no digit. -/
theorem readCharacters_eq_error {position : Nat} {cs : List Char} {fault : Fault} :
    readCharacters position cs = .error fault ↔
      ∃ before c after, cs = before ++ c :: after ∧ (∀ b ∈ before, ∃ d, Denotes b d) ∧
        (¬∃ d, Denotes c d) ∧ fault = .character (position + before.length) c := by
  induction cs generalizing position with
  | nil =>
    constructor
    · intro h
      cases h
    · rintro ⟨before, c, after, hsplit, -⟩
      simp at hsplit
  | cons c cs ih =>
    rw [readCharacters]
    cases hc : hexValue? c with
    | none =>
      rw [hexValue?_eq_none] at hc
      constructor
      · intro h
        cases h
        exact ⟨[], c, cs, rfl, by simp, hc, rfl⟩
      · rintro ⟨before, e, after, hsplit, hbefore, -, rfl⟩
        cases before with
        | nil =>
          cases hsplit
          rfl
        | cons b before =>
          cases hsplit
          exact absurd (hbefore c List.mem_cons_self) hc
    | some d =>
      rw [hexValue?_eq_some] at hc
      have hrest : (readCharacters (position + 1) cs).map (d :: ·) = .error fault ↔
          readCharacters (position + 1) cs = .error fault := by
        cases readCharacters (position + 1) cs <;> simp [Except.map]
      refine hrest.trans (ih.trans ?_)
      constructor
      · rintro ⟨before, e, after, rfl, hbefore, he, rfl⟩
        refine ⟨c :: before, e, after, rfl, List.forall_mem_cons.mpr ⟨⟨d, hc⟩, hbefore⟩, he, ?_⟩
        rw [List.length_cons, Nat.add_right_comm, Nat.add_assoc]
      · rintro ⟨before, e, after, hsplit, hbefore, he, rfl⟩
        cases before with
        | nil =>
          cases hsplit
          exact absurd ⟨d, hc⟩ he
        | cons b before =>
          cases hsplit
          refine ⟨before, e, after, rfl, (List.forall_mem_cons.mp hbefore).2, he, ?_⟩
          rw [List.length_cons, Nat.add_right_comm, Nat.add_assoc]

/-- Characters stand for digits just if the digits are written as these characters in lower case. -/
theorem forall₂_denotes_iff {cs : List Char} {ds : List Nat} :
    List.Forall₂ Denotes cs ds ↔
      (∀ d ∈ ds, d < 16) ∧ ds.map Nat.digitChar = cs.map Char.toLower := by
  induction cs generalizing ds with
  | nil =>
    rw [List.forall₂_nil_left_iff, List.map_nil, List.map_eq_nil_iff]
    constructor
    · rintro rfl
      exact ⟨by simp, rfl⟩
    · exact fun h => h.2
  | cons c cs ih =>
    cases ds with
    | nil => simp
    | cons d ds =>
      rw [List.forall₂_cons, ih, denotes_iff_digitChar, List.forall_mem_cons, List.map_cons,
        List.map_cons, List.cons.injEq]
      exact and_and_and_comm

theorem text_eq_toLower_iff {a : Id} {text : String} :
    a.text = text.toLower ↔ List.Forall₂ Denotes text.toList a.digits := by
  have hsmall : ∀ d ∈ a.digits, d < 16 :=
    fun d hd => Nat.lt_of_lt_of_le (a.digits_lt d hd) a.space.base_le
  rw [forall₂_denotes_iff, ← String.toList_inj, Id.text, String.toList_ofList, String.toLower,
    String.toList_map]
  exact (and_iff_right hsmall).symm

theorem length_text (a : Id) : a.text.length = a.space.length := by
  rw [Id.text, String.length_ofList, List.length_map, length_digits]

theorem toLower_text (a : Id) : a.text.toLower = a.text := by
  have hlower : ∀ d < 16, d.digitChar.toLower = d.digitChar := by decide
  rw [← String.toList_inj, String.toLower, String.toList_map, Id.text, String.toList_ofList,
    List.map_map]
  refine List.map_congr_left fun d hd => ?_
  exact hlower d (Nat.lt_of_lt_of_le (a.digits_lt d hd) a.space.base_le)

/-- Reading goes through the characters and then through the digits. -/
theorem parse_eq {text : String} {space : Space} (hlength : text.length = space.length)
    {ds : List Nat} (hread : readCharacters 0 text.toList = .ok ds) :
    parse text space = ofDigits ds space := by
  rw [parse, if_pos hlength, hread]
  rfl

/-- A text names the identifier that is written like it in lower case. -/
theorem parse_eq_ok {text : String} {space : Space} {a : Id} :
    parse text space = .ok a ↔ a.space = space ∧ a.text = text.toLower := by
  constructor
  · intro h
    have hlength : text.length = space.length := by
      by_contra hlength
      rw [parse, if_neg hlength] at h
      cases h
    cases hread : readCharacters 0 text.toList with
    | error fault =>
      rw [parse, if_pos hlength, hread] at h
      cases h
    | ok ds =>
      rw [parse_eq hlength hread, ofDigits_eq_ok] at h
      obtain ⟨hspace, rfl⟩ := h
      exact ⟨hspace, text_eq_toLower_iff.mpr (readCharacters_eq_ok.mp hread)⟩
  · rintro ⟨rfl, htext⟩
    have hlength : text.length = a.space.length := by
      rw [← a.length_text, htext, String.toLower, String.length_map]
    have hread : readCharacters 0 text.toList = .ok a.digits :=
      readCharacters_eq_ok.mpr (text_eq_toLower_iff.mp htext)
    rw [parse_eq hlength hread, ofDigits_eq_ok]
    exact ⟨rfl, rfl⟩

/-- Lists that are related element by element are split alike. -/
theorem forall₂_split {α β : Type} {R : α → β → Prop} {as : List α} {bs more : List β} {b : β}
    (h : List.Forall₂ R as (bs ++ b :: more)) :
    ∃ before a after, as = before ++ a :: after ∧ List.Forall₂ R before bs ∧ R a b := by
  have hbefore := List.forall₂_take_append as bs (b :: more) h
  have hbehind := List.forall₂_drop_append as bs (b :: more) h
  obtain ⟨a, after, ha, -, hdrop⟩ := List.forall₂_cons_right_iff.mp hbehind
  refine ⟨as.take bs.length, a, after, ?_, hbefore, ha⟩
  rw [← hdrop, List.take_append_drop]

theorem exists_of_forall₂ {α β : Type} {R : α → β → Prop} {as : List α} {bs : List β}
    (h : List.Forall₂ R as bs) : ∀ a ∈ as, ∃ b ∈ bs, R a b := by
  induction h with
  | nil => simp
  | cons hab _ ih =>
    rw [List.forall_mem_cons]
    refine ⟨⟨_, List.mem_cons_self, hab⟩, fun a ha => ?_⟩
    obtain ⟨b, hb, hr⟩ := ih a ha
    exact ⟨b, List.mem_cons_of_mem _ hb, hr⟩

/-- The first digit that is too large stands where the first character does that is not below the
base. -/
theorem first_large_iff {cs : List Char} {ds : List Nat} (h : List.Forall₂ Denotes cs ds)
    (base : Nat) (fault : Fault) :
    (∃ before d after, ds = before ++ d :: after ∧ (∀ b ∈ before, b < base) ∧ base ≤ d ∧
        fault = .digit before.length d base) ↔
      ∃ before c d after, cs = before ++ c :: after ∧
        (∀ b ∈ before, ∃ e < base, Denotes b e) ∧ Denotes c d ∧ base ≤ d ∧
        fault = .digit before.length d base := by
  constructor
  · rintro ⟨bs, d, more, rfl, hbs, hd, rfl⟩
    obtain ⟨before, c, after, rfl, hbefore, hc⟩ := forall₂_split h
    refine ⟨before, c, d, after, rfl, ?_, hc, hd, by rw [hbefore.length_eq]⟩
    intro b hb
    obtain ⟨e, he, hbe⟩ := exists_of_forall₂ hbefore b hb
    exact ⟨e, hbs e he, hbe⟩
  · rintro ⟨before, c, d, after, rfl, hbefore, hc, hd, rfl⟩
    obtain ⟨bs, e, more, rfl, hbs, he⟩ := forall₂_split h.flip
    refine ⟨bs, d, more, by rw [hc.unique he], ?_, hd, by rw [hbs.length_eq]⟩
    intro b hb
    obtain ⟨c', hc', hdenotes⟩ := exists_of_forall₂ hbs b hb
    obtain ⟨b', hlt, hdenotes'⟩ := hbefore c' hc'
    rw [Denotes.unique hdenotes hdenotes']
    exact hlt

/-- Characters that all stand for digits are read. -/
theorem exists_readCharacters {cs : List Char} (h : ∀ c ∈ cs, ∃ d, Denotes c d) :
    ∃ ds, readCharacters 0 cs = .ok ds := by
  cases hread : readCharacters 0 cs with
  | ok ds => exact ⟨ds, rfl⟩
  | error fault =>
    obtain ⟨before, c, after, rfl, -, hc, -⟩ := readCharacters_eq_error.mp hread
    exact absurd (h c (by simp)) hc

/-- A text of the right length is refused because of a character or because of a digit. -/
theorem parse_error_cases {text : String} {space : Space} (hlength : text.length = space.length)
    {fault : Fault} :
    parse text space = .error fault ↔ readCharacters 0 text.toList = .error fault ∨
      ∃ ds, readCharacters 0 text.toList = .ok ds ∧ ofDigits ds space = .error fault := by
  cases hread : readCharacters 0 text.toList with
  | error cause =>
    rw [parse, if_pos hlength, hread]
    change (Except.error cause : Except Fault Id) = .error fault ↔ _
    simp
  | ok ds =>
    rw [parse_eq hlength hread]
    simp

theorem parse_eq_error {text : String} {space : Space} {fault : Fault} :
    parse text space = .error fault ↔ Refused space text fault := by
  by_cases hlength : text.length = space.length
  · rw [parse_error_cases hlength]
    constructor
    · rintro (hread | ⟨ds, hread, hdigits⟩)
      · obtain ⟨before, c, after, hsplit, hbefore, hc, rfl⟩ := readCharacters_eq_error.mp hread
        rw [Nat.zero_add]
        exact .character hlength hsplit hbefore hc
      · have hdenotes := readCharacters_eq_ok.mp hread
        have hcount : ds.length = space.length := by
          rw [← hdenotes.length_eq, String.length_toList, hlength]
        rcases ofDigits_eq_error.mp hdigits with ⟨hwrong, -⟩ | ⟨-, hlarge⟩
        · exact absurd hcount hwrong
        · obtain ⟨before, c, d, after, hsplit, hbefore, hc, hd, rfl⟩ :=
            (first_large_iff hdenotes space.base fault).mp hlarge
          refine .digit hlength ?_ hsplit hbefore hc hd
          intro b hb
          obtain ⟨e, -, he⟩ := exists_of_forall₂ hdenotes b hb
          exact ⟨e, he⟩
    · intro h
      cases h with
      | length hwrong => exact absurd hlength hwrong
      | character _ hsplit hbefore hc =>
        refine Or.inl (readCharacters_eq_error.mpr ⟨_, _, _, hsplit, hbefore, hc, ?_⟩)
        rw [Nat.zero_add]
      | digit _ hdigits hsplit hbefore hc hd =>
        obtain ⟨ds, hread⟩ := exists_readCharacters hdigits
        have hdenotes := readCharacters_eq_ok.mp hread
        have hcount : ds.length = space.length := by
          rw [← hdenotes.length_eq, String.length_toList, hlength]
        refine Or.inr ⟨ds, hread, ofDigits_eq_error.mpr (Or.inr ⟨hcount, ?_⟩)⟩
        exact (first_large_iff hdenotes space.base _).mpr
          ⟨_, _, _, _, hsplit, hbefore, hc, hd, rfl⟩
  · rw [parse, if_neg hlength, Except.error.injEq]
    constructor
    · rintro rfl
      exact .length hlength
    · intro h
      cases h with
      | length => rfl
      | character hright => exact absurd hright hlength
      | digit hright => exact absurd hright hlength

/-- The texts that name an identifier have one digit of the base for each digit of the space. -/
theorem exists_parse_iff {text : String} {space : Space} :
    (∃ a, parse text space = .ok a) ↔
      text.length = space.length ∧ ∀ c ∈ text.toList, ∃ d < space.base, Denotes c d := by
  constructor
  · rintro ⟨a, ha⟩
    obtain ⟨rfl, htext⟩ := parse_eq_ok.mp ha
    have hdenotes := text_eq_toLower_iff.mp htext
    refine ⟨?_, fun c hc => ?_⟩
    · rw [← String.length_toList, hdenotes.length_eq, length_digits]
    · obtain ⟨d, hd, hcd⟩ := exists_of_forall₂ hdenotes c hc
      exact ⟨d, a.digits_lt d hd, hcd⟩
  · rintro ⟨hlength, hdigits⟩
    cases hparse : parse text space with
    | ok a => exact ⟨a, rfl⟩
    | error fault =>
      cases parse_eq_error.mp hparse with
      | length hwrong => exact absurd hlength hwrong
      | @character _ _ c _ hsplit _ hc =>
        obtain ⟨d, -, hd⟩ := hdigits c (by simp [hsplit])
        exact absurd ⟨d, hd⟩ hc
      | @digit _ _ c d _ _ hsplit _ hc hlarge =>
        obtain ⟨e, he, hce⟩ := hdigits c (by simp [hsplit])
        rw [hc.unique hce] at hlarge
        omega

/-- Reading and writing are inverse to each other up to the case of letters. A text is read if it
has as many characters as the space has digits and each of them is a hexadecimal digit of the base,
and what is written of the result is the text in lower case. An identifier is read back from its own
text, so different ones have different texts. Any other text is refused for its length, for the
first character that is no digit, or for the first digit that is too large, and for the first of
these reasons that applies. -/
theorem text_names_identifier (space : Space) :
    (∀ text, (∃ a, parse text space = .ok a) ↔
        text.length = space.length ∧ ∀ c ∈ text.toList, ∃ d < space.base, Denotes c d) ∧
      (∀ text a, parse text space = .ok a → a.space = space ∧ a.text = text.toLower) ∧
      (∀ a : Id, a.space = space → parse a.text space = .ok a) ∧
      (∀ a b : Id, a.space = space → b.space = space → a ≠ b → a.text ≠ b.text) ∧
      ∀ text fault, parse text space = .error fault ↔ Refused space text fault := by
  have hback (a : Id) (hspace : a.space = space) : parse a.text space = .ok a :=
    parse_eq_ok.mpr ⟨hspace, a.toLower_text.symm⟩
  refine ⟨fun text => exists_parse_iff, fun text a => parse_eq_ok.mp, hback, ?_,
    fun text fault => parse_eq_error⟩
  intro a b ha hb hne htext
  have hsame := hback a ha
  rw [htext, hback b hb] at hsame
  exact hne (Except.ok.inj hsame).symm

/-- A character that is no digit is reported although a digit too large stands before it. -/
example : parse "2é0" { radix := .binary, length := 3 } = .error (.character 1 'é') := by
  decide +kernel

end Id

end Overlay.Keyspace
