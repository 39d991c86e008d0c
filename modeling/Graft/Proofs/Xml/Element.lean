import Graft.Proofs.Xml.Token

/-!
# What the reader of an element takes

An element is read from its front alone: what is made of it does not hang on what follows, and
neither does the bound on the number of its pieces, as long as it is no shorter than the element.

* `Attributes.Alike`: attributes that differ at most in the texts they were read from;
* `startTag_eq_ok`, `closeTag_eq_ok`: tags;
* `content_eq_ok`: what an element holds, up to the end of the outermost one;
* `root_eq_ok`: the root element.

What each of them takes is `Tidy`, or at least `Neat`.
-/

namespace Graft.Xml

open Text

/-! ## References -/

theorem referredParts_congr {after : Text} {parts : List Text} {ps : List Piece}
    (h : referredParts after parts = .ok ps) (after' : Text) :
    referredParts after' parts = .ok ps := by
  induction parts generalizing ps with
  | nil => exact h
  | cons part parts ih =>
    rw [referredParts] at h ⊢
    split at h
    · cases h
    · cases h
    · obtain ⟨qs, hqs, heq⟩ := bind_eq_ok_iff.1 h
      exact bind_eq_ok_iff.2 ⟨qs, ih hqs, heq⟩

/-- What a text reads as does not hang on what follows. -/
theorem pieces_congr {t after : Text} {ps : List Piece} (h : pieces t after = .ok ps)
    (after' : Text) : pieces t after' = .ok ps := by
  unfold pieces at h ⊢
  split at h
  · exact h
  · obtain ⟨qs, hqs, heq⟩ := bind_eq_ok_iff.1 h
    exact bind_eq_ok_iff.2 ⟨qs, referredParts_congr hqs after', heq⟩

/-! ## Attributes -/

/-- The attributes differ at most in the texts they were read from. -/
structure Attributes.Alike (as bs : Attributes) : Prop where
  declared : as.declared = bs.declared
  others : as.others.map Attribute.name = bs.others.map Attribute.name

theorem Attributes.Alike.add {as bs as' : Attributes} (h : as.Alike bs) {name : QName}
    {value here : Text} (ha : as.add name value here = .ok as') (here' : Text) :
    ∃ bs', bs.add name value here' = .ok bs' ∧ as'.Alike bs' := by
  unfold Attributes.add at ha ⊢
  rw [← h.declared]
  by_cases hpre : name.pre = xmlns
  · simp only [if_pos hpre] at ha ⊢
    split at ha
    · cases ha
    · rename_i hxmlns
      rw [if_neg hxmlns]
      split at ha
      · rename_i hxml
        rw [if_pos hxml]
        split at ha
        · rename_i hvalue
          obtain rfl := Except.ok.inj ha
          exact ⟨bs, if_pos hvalue, h⟩
        · cases ha
      · rename_i hxml
        rw [if_neg hxml]
        split at ha
        · cases ha
        · rename_i hvalue
          rw [if_neg hvalue]
          split at ha
          · cases ha
          · rename_i hnew
            obtain rfl := Except.ok.inj ha
            exact ⟨_, if_neg hnew, rfl, h.others⟩
  · simp only [if_neg hpre] at ha ⊢
    split at ha
    · rename_i hname
      rw [if_pos hname]
      split at ha
      · cases ha
      · rename_i hvalue
        rw [if_neg hvalue]
        split at ha
        · cases ha
        · rename_i hxmlns
          obtain rfl := Except.ok.inj ha
          exact ⟨bs, if_neg hxmlns, h⟩
    · rename_i hname
      obtain rfl := Except.ok.inj ha
      refine ⟨_, if_neg hname, rfl, ?_⟩
      simp only [List.map_append, List.map_cons, List.map_nil, h.others]

theorem ofAttribute_congr {scope : Scope} {a b : Attribute} (h : a.name = b.name)
    {key : Option Text} (ha : scope.ofAttribute a = .ok key) : scope.ofAttribute b = .ok key := by
  unfold Scope.ofAttribute at ha ⊢
  rw [← h]
  split at ha
  · rename_i hxml
    rwa [if_pos hxml]
  · rename_i hxml
    rw [if_neg hxml]
    split at ha
    · rename_i hpre
      rwa [if_pos hpre]
    · rename_i hpre
      rw [if_neg hpre]
      obtain ⟨uri, huri, rfl⟩ := map_eq_ok_iff.1 ha
      refine map_eq_ok_iff.2 ⟨uri, ?_, rfl⟩
      unfold Scope.find at huri ⊢
      split at huri
      · exact huri
      · cases huri

theorem checkAttributes_congr {scope : Scope} {seen : List (Option Text × Text)}
    {as bs : List Attribute} (h : as.map Attribute.name = bs.map Attribute.name)
    (ha : scope.checkAttributes seen as = .ok ()) : scope.checkAttributes seen bs = .ok () := by
  induction as generalizing seen bs with
  | nil =>
    obtain rfl := List.map_eq_nil_iff.1 h.symm
    rfl
  | cons a as ih =>
    cases bs with
    | nil => cases h
    | cons b bs =>
      obtain ⟨hname, htail⟩ := List.cons.inj h
      rw [Scope.checkAttributes] at ha ⊢
      obtain ⟨key, hkey, hrest⟩ := bind_eq_ok_iff.1 ha
      refine bind_eq_ok_iff.2 ⟨key, ofAttribute_congr hname hkey, ?_⟩
      rw [← hname]
      dsimp only at hrest ⊢
      split at hrest
      · cases hrest
      · rename_i hnew
        rw [if_neg hnew]
        exact ih htail hrest

theorem checkElement_congr {scope : Scope} {name : QName} {here : Text}
    (h : scope.checkElement name here = .ok ()) (here' : Text) :
    scope.checkElement name here' = .ok () := by
  unfold Scope.checkElement at h ⊢
  split at h
  · rename_i hpre
    rw [if_pos hpre]
  · rename_i hpre
    rw [if_neg hpre]
    obtain ⟨uri, huri, -⟩ := map_eq_ok_iff.1 h
    refine map_eq_ok_iff.2 ⟨uri, ?_, rfl⟩
    unfold Scope.find at huri ⊢
    split at huri
    · exact huri
    · cases huri

/-! ## Start tags -/

section
variable {n : Nat} {as : Attributes} {gap t : Text} (hg : ∀ c ∈ gap, isWhite c = true)
include hg

theorem tagRest_opened (t : Text) : tagRest (n + 1) as (gap ++ '>' :: t) = .ok (as, .opened, t) := by
  have hskip := skipWhite_append (z := '>' :: t) hg (stops_cons.2 rfl)
  cases gap with
  | nil => rfl
  | cons c gap =>
    rw [List.cons_append] at hskip ⊢
    rw [tagRest, hskip]
    rfl

theorem tagRest_slash (t : Text) :
    tagRest (n + 1) as (gap ++ '/' :: t) =
      (expectChar '>' t).map fun rest => (as, .closed, rest) := by
  have hskip := skipWhite_append (z := '/' :: t) hg (stops_cons.2 rfl)
  cases gap with
  | nil => rfl
  | cons c gap =>
    rw [List.cons_append] at hskip ⊢
    rw [tagRest, hskip]
    rfl

theorem tagRest_cut (as₁ : Attributes) {e : TagEnd} {rest : Text}
    (h : tagRest (n + 1) as gap = .ok (as₁, e, rest)) : e = .cut := by
  have hskip := skipWhite_append (z := []) hg (by simp [Stops])
  cases gap with
  | nil =>
    obtain ⟨-, hcut⟩ := Prod.mk.inj (Except.ok.inj h)
    exact (Prod.mk.inj hcut).1.symm
  | cons c gap =>
    rw [List.append_nil] at hskip
    rw [tagRest, hskip] at h
    cases h

/-- An attribute comes behind white space. -/
theorem tagRest_attribute_iff (hne : gap ≠ []) {d : Char} (hd : isWhite d = false)
    (hslash : d ≠ '/') (hclose : d ≠ '>') {r : Attributes × TagEnd × Text} :
    tagRest (n + 1) as (gap ++ d :: t) = .ok r ↔
      ∃ a rest ps as₁, rawAttribute (d :: t) = .ok (a, rest) ∧ pieces a.value a.behind = .ok ps ∧
        as.add a.name (attributeValue ps) (d :: t) = .ok as₁ ∧ tagRest n as₁ rest = .ok r := by
  have hskip := skipWhite_append (z := d :: t) hg (stops_cons.2 hd)
  obtain ⟨c, gap, rfl⟩ := List.exists_cons_of_ne_nil hne
  rw [List.cons_append] at hskip ⊢
  have hc : isWhite c = true := hg c List.mem_cons_self
  simp only [tagRest, hskip, hc, if_true]
  constructor
  · intro h
    obtain ⟨⟨a, rest⟩, hraw, h₁⟩ := bind_eq_ok_iff.1 h
    obtain ⟨ps, hps, h₂⟩ := bind_eq_ok_iff.1 h₁
    obtain ⟨as₁, has, h₃⟩ := bind_eq_ok_iff.1 h₂
    exact ⟨a, rest, ps, as₁, hraw, hps, has, h₃⟩
  · rintro ⟨a, rest, ps, as₁, hraw, hps, has, h₃⟩
    exact bind_eq_ok_iff.2 ⟨_, hraw, bind_eq_ok_iff.2 ⟨ps, hps, bind_eq_ok_iff.2 ⟨as₁, has, h₃⟩⟩⟩

end

theorem tagRest_apart {n : Nat} {as : Attributes} {d : Char} {t : Text} (hd : isWhite d = false)
    (hslash : d ≠ '/') (hclose : d ≠ '>') {r : Attributes × TagEnd × Text} :
    tagRest (n + 1) as (d :: t) ≠ .ok r := by
  have hnone : ∀ c ∈ ([] : Text), isWhite c = true := fun _ h => (nomatch h)
  have hskip : skipWhite (d :: t) = d :: t := skipWhite_append hnone (stops_cons.2 hd)
  intro h
  simp only [tagRest, hskip, hd, Bool.false_eq_true, if_false] at h
  cases h

/-- The rest of a start tag, which is taken behind alike attributes whatever follows. -/
structure TakesRest (as as₁ : Attributes) (e : TagEnd) (u : Text) : Prop where
  ne_nil : u ≠ []
  tidy : Tidy u
  takes : ∀ z m bs, u.length ≤ m → as.Alike bs →
    ∃ bs₁, tagRest m bs (u ++ z) = .ok (bs₁, e, z) ∧ as₁.Alike bs₁

section
variable {as as₁ as₂ : Attributes} {e : TagEnd} {gap t u v : Text} {d : Char}

theorem exists_succ_of_length {m : Nat} (hu : u ≠ []) (hm : u.length ≤ m) : ∃ k, m = k + 1 := by
  have hlen := List.length_pos_iff.2 hu
  exact ⟨m - 1, by omega⟩

theorem takesRest_opened (hg : ∀ c ∈ gap, isWhite c = true) :
    TakesRest as as .opened (gap ++ ['>']) where
  ne_nil := by simp
  tidy := (tidy_of_white hg).append (tidy_of_notMem (by decide) (by decide))
  takes := by
    intro z m bs hm hbs
    obtain ⟨k, rfl⟩ := exists_succ_of_length (by simp) hm
    refine ⟨bs, ?_, hbs⟩
    rw [List.append_assoc, List.singleton_append, tagRest_opened hg]

theorem takesRest_closed (hg : ∀ c ∈ gap, isWhite c = true) :
    TakesRest as as .closed (gap ++ ['/', '>']) where
  ne_nil := by simp
  tidy := (tidy_of_white hg).append (tidy_of_notMem (by decide) (by decide))
  takes := by
    intro z m bs hm hbs
    obtain ⟨k, rfl⟩ := exists_succ_of_length (by simp) hm
    refine ⟨bs, ?_, hbs⟩
    rw [List.append_assoc, List.cons_append, List.singleton_append, tagRest_slash hg]
    exact map_eq_ok_iff.2 ⟨z, expectChar_eq_ok_iff.2 rfl, rfl⟩

/-- An attribute in front of such a rest. -/
theorem TakesRest.attribute (hu : TakesRest as₂ as₁ e u) (hg : ∀ c ∈ gap, isWhite c = true)
    (hgap : gap ≠ []) (hd : isWhite d = false) (hslash : d ≠ '/') (hclose : d ≠ '>')
    {name : QName} {value : Text} {ps : List Piece} (htidy : Tidy (d :: v))
    (htakes : ∀ z, ∃ behind, rawAttribute (d :: v ++ z) = .ok (⟨name, value, behind⟩, z))
    (hps : ∀ behind, pieces value behind = .ok ps)
    (has : as.add name (attributeValue ps) t = .ok as₂) :
    TakesRest as as₁ e (gap ++ (d :: v ++ u)) where
  ne_nil := by simp
  tidy := (tidy_of_white hg).append (htidy.append hu.tidy)
  takes := by
    intro z m bs hm hbs
    obtain ⟨k, rfl⟩ := exists_succ_of_length (by simp) hm
    obtain ⟨behind, hraw⟩ := htakes (u ++ z)
    obtain ⟨bs₂, hbs₂, halike⟩ := hbs.add has (d :: (v ++ (u ++ z)))
    have hk : u.length ≤ k := by
      simp only [List.length_append, List.length_cons] at hm
      omega
    obtain ⟨bs₁, hbs₁, hend⟩ := hu.takes z k bs₂ hk halike
    refine ⟨bs₁, ?_, hend⟩
    have hall : gap ++ (d :: v ++ u) ++ z = gap ++ d :: (v ++ (u ++ z)) := by simp
    rw [hall]
    exact (tagRest_attribute_iff hg hgap hd hslash hclose).2
      ⟨_, u ++ z, ps, bs₂, hraw, hps behind, hbs₂, hbs₁⟩

end

/-- The attributes of a start tag and its end are taken whatever follows. -/
theorem tagRest_eq_ok {n : Nat} {as as₁ : Attributes} {t rest : Text} {e : TagEnd}
    (h : tagRest n as t = .ok (as₁, e, rest)) (he : e ≠ .cut) :
    ∃ u, t = u ++ rest ∧ TakesRest as as₁ e u := by
  induction n generalizing as t with
  | zero =>
    obtain ⟨-, hcut⟩ := Prod.mk.inj (Except.ok.inj h)
    exact absurd (Prod.mk.inj hcut).1.symm he
  | succ n ih =>
    obtain ⟨gap, hg, ht, hstop⟩ := exists_skipWhite t
    generalize skipWhite t = back at *
    subst ht
    cases back with
    | nil =>
      rw [List.append_nil] at h
      exact absurd (tagRest_cut hg as₁ h) he
    | cons d back =>
      by_cases hclose : d = '>'
      · subst hclose
        rw [tagRest_opened hg] at h
        obtain ⟨rfl, heq⟩ := Prod.mk.inj (Except.ok.inj h)
        obtain ⟨rfl, rfl⟩ := Prod.mk.inj heq
        exact ⟨gap ++ ['>'], by simp, takesRest_opened hg⟩
      · by_cases hslash : d = '/'
        · subst hslash
          rw [tagRest_slash hg] at h
          obtain ⟨r, hr, hresult⟩ := map_eq_ok_iff.1 h
          obtain ⟨rfl, heq⟩ := Prod.mk.inj hresult
          obtain ⟨rfl, rfl⟩ := Prod.mk.inj heq
          obtain rfl := expectChar_eq_ok_iff.1 hr
          exact ⟨gap ++ ['/', '>'], by simp, takesRest_closed hg⟩
        · have hd : isWhite d = false := stops_cons.1 hstop
          have hgap : gap ≠ [] := by
            rintro rfl
            exact tagRest_apart hd hslash hclose h
          obtain ⟨a, rest₁, ps, as₂, hraw, hps, has, hrest⟩ :=
            (tagRest_attribute_iff hg hgap hd hslash hclose).1 h
          obtain ⟨p, hp, hplain, htidy, htakes⟩ := rawAttribute_eq_ok hraw
          obtain ⟨u, rfl, hu⟩ := ih hrest
          obtain ⟨c, v, rfl, -⟩ := exists_of_isPlainName hplain
          obtain ⟨rfl, rfl⟩ := List.cons.inj hp
          exact ⟨gap ++ (d :: v ++ u), by simp,
            hu.attribute hg hgap hd hslash hclose (htidy ps hps) htakes (pieces_congr hps) has⟩

theorem startTag_eq_ok_iff {outer : Scope} {t rest : Text} {tag : StartTag}
    (hcut : tag.ending ≠ .cut) :
    startTag outer t = .ok (tag, rest) ↔
      ∃ t₁ as, qname t = .ok (tag.name, t₁) ∧ tag.name.pre ≠ xmlns ∧
        tagRest (t₁.length + 1) ⟨[], []⟩ t₁ = .ok (as, tag.ending, rest) ∧
        tag.scope = as.declared ++ outer ∧ tag.scope.checkAttributes [] as.others = .ok () ∧
        tag.scope.checkElement tag.name t = .ok () := by
  rw [startTag, bind_eq_ok_iff]
  constructor
  · rintro ⟨⟨name, t₁⟩, hname, h⟩
    dsimp only at h
    split at h
    · cases h
    · rename_i hpre
      obtain ⟨⟨as, e, back⟩, hrest, h₁⟩ := bind_eq_ok_iff.1 h
      dsimp only at h₁
      split at h₁
      · obtain ⟨rfl, -⟩ := Prod.mk.inj (Except.ok.inj h₁)
        exact absurd rfl hcut
      · obtain ⟨_, hchecked, h₂⟩ := bind_eq_ok_iff.1 h₁
        obtain ⟨_, helement, h₃⟩ := bind_eq_ok_iff.1 h₂
        obtain ⟨rfl, rfl⟩ := Prod.mk.inj (Except.ok.inj h₃)
        exact ⟨t₁, as, hname, hpre, hrest, rfl, hchecked, helement⟩
  · rintro ⟨t₁, as, hname, hpre, hrest, hscope, hchecked, helement⟩
    refine ⟨_, hname, ?_⟩
    dsimp only
    rw [if_neg hpre]
    refine bind_eq_ok_iff.2 ⟨_, hrest, ?_⟩
    obtain ⟨name, scope, e⟩ := tag
    dsimp only at *
    subst hscope
    split
    · exact absurd rfl hcut
    · exact bind_eq_ok_iff.2 ⟨(), hchecked, bind_eq_ok_iff.2 ⟨(), helement, rfl⟩⟩

/-- A start tag is taken whatever follows. -/
theorem startTag_eq_ok {outer : Scope} {t rest : Text} {tag : StartTag}
    (h : startTag outer t = .ok (tag, rest)) (hcut : tag.ending ≠ .cut) :
    ∃ u, t = u ++ rest ∧ isPlainName u = true ∧ Tidy u ∧
      ∀ z, startTag outer (u ++ z) = .ok (tag, z) := by
  obtain ⟨t₁, as, hname, hpre, hrest, hscope, hchecked, helement⟩ :=
    (startTag_eq_ok_iff hcut).1 h
  obtain ⟨run, rfl, hrun, hplain, hends, htakes⟩ := qname_eq_ok hname
  obtain ⟨u, rfl, hu⟩ := tagRest_eq_ok hrest hcut
  obtain ⟨c, v, rfl, hc⟩ := exists_of_isPlainName hplain
  refine ⟨c :: v ++ u, by simp, hc, (tidy_of_names hrun).append hu.tidy, fun z => ?_⟩
  obtain ⟨as', has', halike⟩ := hu.takes z ((u ++ z).length + 1) ⟨[], []⟩
    (by simp only [List.length_append]; omega) ⟨rfl, rfl⟩
  rw [List.append_assoc]
  exact (startTag_eq_ok_iff hcut).2 ⟨u ++ z, as', htakes _ (stops_append hu.ne_nil hends), hpre, has',
    halike.declared ▸ hscope, checkAttributes_congr halike.others hchecked,
    checkElement_congr helement _⟩

/-- A closing tag is taken whatever follows. -/
theorem closeTag_eq_ok {t rest : Text} {name : QName}
    (h : closeTag ('<' :: '/' :: t) = .ok (name, rest)) :
    ∃ u, t = u ++ rest ∧ Tidy u ∧ ∀ z, closeTag ('<' :: '/' :: (u ++ z)) = .ok (name, z) := by
  have hdrop : ∀ t : Text, ('<' :: '/' :: t).drop 2 = t := fun t => rfl
  rw [closeTag, hdrop] at h
  obtain ⟨⟨q, t₁⟩, hname, h₁⟩ := bind_eq_ok_iff.1 h
  obtain ⟨back, hclose, h₂⟩ := bind_eq_ok_iff.1 h₁
  obtain ⟨rfl, rfl⟩ := Prod.mk.inj (Except.ok.inj h₂)
  obtain ⟨run, rfl, hrun, -, hends, htakes⟩ := qname_eq_ok hname
  obtain ⟨gap, hg, ht₁, -⟩ := exists_skipWhite t₁
  have hskip : skipWhite t₁ = '>' :: back := expectChar_eq_ok_iff.1 hclose
  rw [hskip] at ht₁
  subst ht₁
  refine ⟨run ++ (gap ++ ['>']), by simp, ?_, fun z => ?_⟩
  · exact (tidy_of_names hrun).append
      ((tidy_of_white hg).append (tidy_of_notMem (by decide) (by decide)))
  have hall : run ++ (gap ++ ['>']) ++ z = run ++ (gap ++ '>' :: z) := by simp
  have hmore : Stops isNameChar (gap ++ '>' :: z) := by
    have hcut : ∀ t : Text, gap ++ '>' :: t = gap ++ ['>'] ++ t := fun t => by simp
    rw [hcut] at hends ⊢
    exact stops_append (by simp) hends
  rw [closeTag, hdrop, hall]
  refine bind_eq_ok_iff.2 ⟨_, htakes _ hmore, bind_eq_ok_iff.2 ⟨z, ?_, rfl⟩⟩
  rw [skipWhite_append hg (stops_cons.2 rfl), expectChar_eq_ok_iff]

/-! ## Content -/

/-- A run of text is taken whatever tag follows. -/
theorem textRun_eq_ok {c : Char} {t run rest : Text} (hc : c ≠ '<')
    (h : textRun (c :: t) = .ok (run, rest)) :
    ∃ u, t = u ++ rest ∧ Stops (· != '<') rest ∧ Tidy (c :: u) ∧
      ∀ z, Stops (· != '<') z → textRun (c :: (u ++ z)) = .ok (run, z) := by
  have hall : ∀ d ∈ (c :: t).takeWhile (· != '<'), (d != '<') = true :=
    List.all_eq_true.1 List.all_takeWhile
  have hcut := List.takeWhile_append_dropWhile (p := (· != '<')) (l := c :: t)
  have hstop := stops_dropWhile (· != '<') (c :: t)
  rw [textRun] at h
  obtain ⟨_, hchars, h₁⟩ := bind_eq_ok_iff.1 h
  split at h₁
  · cases h₁
  · rename_i hsection
    obtain ⟨ps, hps, h₂⟩ := bind_eq_ok_iff.1 h₁
    obtain ⟨rfl, rfl⟩ := Prod.mk.inj (Except.ok.inj h₂)
    have hchars := checkChars_eq_ok_iff.1 hchars
    rw [List.takeWhile_cons_of_pos (by simpa using hc)] at *
    generalize t.takeWhile (· != '<') = u at *
    have hopen : '<' ∉ c :: u := fun hm => absurd (hall '<' hm) (by decide)
    refine ⟨u, (List.cons.inj hcut).2.symm, hstop, tidy_of_pieces hps hopen, fun z hz => ?_⟩
    obtain ⟨htake, hdrop⟩ := takeWhile_append_of_stops hall hz
    rw [List.cons_append] at htake hdrop
    rw [textRun, htake, hdrop]
    refine bind_eq_ok_iff.2 ⟨(), checkChars_eq_ok_iff.2 hchars, ?_⟩
    rw [if_neg hsection]
    exact bind_eq_ok_iff.2 ⟨ps, pieces_congr hps z, rfl⟩

section
variable (n : Nat) (f : Frame) (outer : List Frame)

theorem content_comment (t : Text) :
    content (n + 1) f outer ("<!--".toList ++ t) =
      comment ("<!--".toList ++ t) >>= content n f outer := rfl

theorem content_section (t : Text) :
    content (n + 1) f outer ("<![CDATA[".toList ++ t) =
      characterData ("<![CDATA[".toList ++ t) >>= fun r =>
        content n (f.add (.text r.1)) outer r.2 := rfl

theorem content_markup {t : Text} {r : Node × Text}
    (h : content (n + 1) f outer ('<' :: '!' :: t) = .ok r) :
    ∃ u, '<' :: '!' :: t = "<!--".toList ++ u ∨ '<' :: '!' :: t = "<![CDATA[".toList ++ u := by
  rw [content] at h
  split at h
  · rename_i hw
    obtain ⟨u, hu⟩ := startsWith_iff_isPrefix.1 hw
    exact ⟨u, .inl hu.symm⟩
  · split at h
    · rename_i hw
      obtain ⟨u, hu⟩ := startsWith_iff_isPrefix.1 hw
      exact ⟨u, .inr hu.symm⟩
    · cases h

theorem content_instruction (t : Text) :
    content (n + 1) f outer ('<' :: '?' :: t) =
      instruction ('<' :: '?' :: t) >>= content n f outer := rfl

theorem content_close (t : Text) :
    content (n + 1) f outer ('<' :: '/' :: t) =
      closeTag ('<' :: '/' :: t) >>= fun r =>
        if r.1 = f.name then
          match outer with
          | [] => .ok (f.close, r.2)
          | g :: outer => content n (g.add f.close) outer r.2
        else .error ⟨.mismatchedClose f.name.written r.1.written, '<' :: '/' :: t⟩ := rfl

theorem content_open {c : Char} (hmark : c ≠ '!') (hquestion : c ≠ '?') (hslash : c ≠ '/')
    (t : Text) :
    content (n + 1) f outer ('<' :: c :: t) =
      startTag f.scope (c :: t) >>= fun r =>
        match r.1.ending with
        | .cut => .error ⟨.unclosedRoot, []⟩
        | .closed => content n (f.add (.element r.1.name.name [])) outer r.2
        | .opened => content n ⟨r.1.name, r.1.scope, []⟩ (f :: outer) r.2 :=
  content.eq_7 f outer n (c :: t) (fun h => (nomatch h)) (fun _ h => hmark (List.cons.inj h).1)
    (fun _ h => hquestion (List.cons.inj h).1) (fun _ h => hslash (List.cons.inj h).1)

theorem content_text {c : Char} (hc : c ≠ '<') (t : Text) :
    content (n + 1) f outer (c :: t) =
      textRun (c :: t) >>= fun r => content n (f.add (.text r.1)) outer r.2 :=
  content.eq_8 f outer n c t hc

end

theorem ne_space_of_isNameStart {c : Char} (hc : isNameStart c = true) : c ≠ ' ' := by
  rintro rfl
  exact absurd hc (by decide)

/-- A character that begins a name begins no other markup. -/
theorem ne_of_isNameStart {c : Char} (hc : isNameStart c = true) : c ≠ '!' ∧ c ≠ '?' ∧ c ≠ '/' := by
  refine ⟨?_, ?_, ?_⟩ <;> rintro rfl <;> exact absurd hc (by decide)

/-- The reader reads one piece `p` of an element and goes on in `f'`, inside `outer'`, with `rest`:
so it does whatever comes behind the piece, as long as it begins as `rest` does. -/
structure Reads (n : Nat) (f : Frame) (outer : List Frame) (t : Text) (r : Node × Text)
    (p : Text) (f' : Frame) (outer' : List Frame) (rest : Text) : Prop where
  ne_nil : p ≠ []
  text : t = p ++ rest
  neat : Neat p
  behind : content n f' outer' rest = .ok r
  step : ∀ z k, z.head? = rest.head? →
    content (k + 1) f outer (p ++ z) = content k f' outer' z

/-- The reader reads the end of the outermost element. -/
structure Ends (f : Frame) (outer : List Frame) (t : Text) (r : Node × Text) (p : Text) : Prop where
  ne_nil : p ≠ []
  text : t = p ++ r.2
  neat : Neat p
  step : ∀ z k, content (k + 1) f outer (p ++ z) = .ok (r.1, z)

theorem bind_of_eq_ok {ε α β : Type} {x : Except ε α} {a : α} (h : x = .ok a)
    (f : α → Except ε β) : (x >>= f) = f a := by
  rw [h]
  rfl

section
variable {n : Nat} {f : Frame} {outer : List Frame} {t : Text} {r : Node × Text}

theorem reads_markup (h : content (n + 1) f outer ('<' :: '!' :: t) = .ok r) :
    ∃ p f' outer' rest, Reads n f outer ('<' :: '!' :: t) r p f' outer' rest := by
  obtain ⟨t', ht | ht⟩ := content_markup n f outer h
  · rw [ht, content_comment] at h
    obtain ⟨rest, hcomment, hrest⟩ := bind_eq_ok_iff.1 h
    obtain ⟨p, rfl, htakes⟩ := comment_eq_ok hcomment
    refine ⟨"<!--".toList ++ p, f, outer, rest, by simp, by rw [ht, List.append_assoc],
      neat_markup _, hrest, fun z k _ => ?_⟩
    rw [List.append_assoc, content_comment, bind_of_eq_ok (htakes z)]
  · rw [ht, content_section] at h
    obtain ⟨⟨run, rest⟩, hsection, hrest⟩ := bind_eq_ok_iff.1 h
    obtain ⟨p, rfl, htakes⟩ := characterData_eq_ok hsection
    refine ⟨"<![CDATA[".toList ++ p, f.add (.text run), outer, rest, by simp,
      by rw [ht, List.append_assoc], neat_markup _, hrest, fun z k _ => ?_⟩
    rw [List.append_assoc, content_section, bind_of_eq_ok (htakes z)]

theorem reads_instruction (h : content (n + 1) f outer ('<' :: '?' :: t) = .ok r) :
    ∃ p f' outer' rest, Reads n f outer ('<' :: '?' :: t) r p f' outer' rest := by
  rw [content_instruction] at h
  obtain ⟨rest, hins, hrest⟩ := bind_eq_ok_iff.1 h
  obtain ⟨p, rfl, -, htakes⟩ := instruction_eq_ok hins
  refine ⟨'<' :: '?' :: p, f, outer, rest, List.cons_ne_nil _ _, rfl, neat_instruction p, hrest,
    fun z k _ => ?_⟩
  rw [List.cons_append, List.cons_append, content_instruction, bind_of_eq_ok (htakes z)]

theorem reads_close (h : content (n + 1) f outer ('<' :: '/' :: t) = .ok r) :
    (∃ p, Ends f outer ('<' :: '/' :: t) r p) ∨
      ∃ p f' outer' rest, Reads n f outer ('<' :: '/' :: t) r p f' outer' rest := by
  rw [content_close] at h
  obtain ⟨⟨name, rest⟩, hclose, hrest⟩ := bind_eq_ok_iff.1 h
  obtain ⟨p, rfl, htidy, htakes⟩ := closeTag_eq_ok hclose
  have hneat : Neat ('<' :: '/' :: p) := by
    have hslash : Tidy ['/'] := tidy_of_notMem (by decide) (by decide)
    exact (tidy_tag (by decide) (hslash.append htidy)).neat
  have hstep : ∀ z k, content (k + 1) f outer ('<' :: '/' :: p ++ z) = _ := fun z k =>
    (content_close k f outer (p ++ z)).trans (bind_of_eq_ok (htakes z) _)
  dsimp only at hrest
  split at hrest
  · rename_i hname
    cases outer with
    | nil =>
      obtain rfl := Except.ok.inj hrest
      exact .inl ⟨'<' :: '/' :: p, List.cons_ne_nil _ _, rfl, hneat,
        fun z k => (hstep z k).trans (if_pos hname)⟩
    | cons g outer =>
      exact .inr ⟨'<' :: '/' :: p, g.add f.close, outer, rest, List.cons_ne_nil _ _, rfl, hneat,
        hrest, fun z k _ => (hstep z k).trans (if_pos hname)⟩
  · cases hrest

theorem reads_open {c : Char} (hmark : c ≠ '!') (hquestion : c ≠ '?') (hslash : c ≠ '/')
    (h : content (n + 1) f outer ('<' :: c :: t) = .ok r) :
    ∃ p f' outer' rest, Reads n f outer ('<' :: c :: t) r p f' outer' rest := by
  rw [content_open n f outer hmark hquestion hslash] at h
  obtain ⟨⟨tag, rest⟩, htag, hrest⟩ := bind_eq_ok_iff.1 h
  have hcut : tag.ending ≠ .cut := by
    intro hcut
    simp only [hcut] at hrest
    cases hrest
  obtain ⟨p, hp, hplain, htidy, htakes⟩ := startTag_eq_ok htag hcut
  obtain ⟨d, v, rfl, hd⟩ := exists_of_isPlainName hplain
  obtain ⟨rfl, rfl⟩ := List.cons.inj hp
  have hneat : Neat ('<' :: c :: v) := (tidy_tag (ne_space_of_isNameStart hd) htidy).neat
  have hstep : ∀ z k, content (k + 1) f outer ('<' :: c :: v ++ z) = _ := fun z k =>
    (content_open k f outer hmark hquestion hslash (v ++ z)).trans (bind_of_eq_ok (htakes z) _)
  cases hending : tag.ending with
  | cut => exact absurd hending hcut
  | closed =>
    simp only [hending] at hrest hstep
    exact ⟨'<' :: c :: v, _, _, rest, List.cons_ne_nil _ _, rfl, hneat, hrest,
      fun z k _ => hstep z k⟩
  | opened =>
    simp only [hending] at hrest hstep
    exact ⟨'<' :: c :: v, _, _, rest, List.cons_ne_nil _ _, rfl, hneat, hrest,
      fun z k _ => hstep z k⟩

theorem reads_text {c : Char} (hc : c ≠ '<') (h : content (n + 1) f outer (c :: t) = .ok r) :
    ∃ p f' outer' rest, Reads n f outer (c :: t) r p f' outer' rest := by
  rw [content_text n f outer hc] at h
  obtain ⟨⟨run, rest⟩, hrun, hrest⟩ := bind_eq_ok_iff.1 h
  obtain ⟨p, rfl, hstop, htidy, htakes⟩ := textRun_eq_ok hc hrun
  refine ⟨c :: p, f.add (.text run), outer, rest, List.cons_ne_nil c p, rfl, htidy.neat, hrest,
    fun z k hz => ?_⟩
  have hz' : Stops (· != '<') z := fun d hd => hstop d (hz ▸ hd)
  rw [List.cons_append, content_text k f outer hc, bind_of_eq_ok (htakes z hz')]

/-- What is read first of an element: its end, or a piece. -/
theorem content_step (h : content (n + 1) f outer t = .ok r) :
    (∃ p, Ends f outer t r p) ∨ ∃ p f' outer' rest, Reads n f outer t r p f' outer' rest := by
  cases t with
  | nil => cases h
  | cons c t =>
    by_cases hc : c = '<'
    · subst hc
      cases t with
      | nil => cases h
      | cons c t =>
        by_cases hmark : c = '!'
        · subst hmark
          exact .inr (reads_markup h)
        · by_cases hquestion : c = '?'
          · subst hquestion
            exact .inr (reads_instruction h)
          · by_cases hslash : c = '/'
            · subst hslash
              exact reads_close h
            · exact .inr (reads_open hmark hquestion hslash h)
    · exact .inr (reads_text hc h)

end

/-- What an element holds is taken whatever follows, under every bound that is longer. -/
theorem content_eq_ok {n : Nat} {f : Frame} {outer : List Frame} {t rest : Text} {node : Node}
    (h : content n f outer t = .ok (node, rest)) :
    ∃ u, u ≠ [] ∧ t = u ++ rest ∧ Neat u ∧
      ∀ z m, u.length < m → content m f outer (u ++ z) = .ok (node, z) := by
  induction n generalizing f outer t with
  | zero => cases h
  | succ n ih =>
    rcases content_step h with ⟨p, hp⟩ | ⟨p, f', outer', t₁, hp⟩
    · refine ⟨p, hp.ne_nil, hp.text, hp.neat, fun z m hm => ?_⟩
      obtain ⟨k, rfl⟩ : ∃ k, m = k + 1 := ⟨m - 1, by omega⟩
      exact hp.step z k
    · obtain ⟨u, hu, rfl, hneat, htakes⟩ := ih hp.behind
      refine ⟨p ++ u, by simp [hu], by rw [hp.text, List.append_assoc], hp.neat.append hneat,
        fun z m hm => ?_⟩
      have hlen := List.length_pos_iff.2 hp.ne_nil
      rw [List.length_append] at hm
      obtain ⟨k, rfl⟩ : ∃ k, m = k + 1 := ⟨m - 1, by omega⟩
      have hhead : (u ++ z).head? = (u ++ rest).head? := by
        obtain ⟨c, v, rfl⟩ := List.exists_cons_of_ne_nil hu
        rfl
      rw [List.append_assoc, hp.step (u ++ z) k hhead]
      exact htakes z k (by omega)

/-! ## The root -/

/-- The text is an element, which is taken whatever follows. -/
structure IsRoot (t : Text) (node : Node) : Prop where
  tag : ∃ c u, t = '<' :: c :: u ∧ isNameStart c = true
  takes : ∀ z, root (t ++ z) = .ok (node, z)

theorem root_open (t : Text) :
    root ('<' :: t) = startTag [] t >>= fun r =>
      match r.1.ending with
      | .cut => .error ⟨.noRoot, []⟩
      | .closed => .ok (.element r.1.name.name [], r.2)
      | .opened => content (r.2.length + 1) ⟨r.1.name, r.1.scope, []⟩ [] r.2 := rfl

theorem root_eq_ok {t rest : Text} {node : Node} (h : root t = .ok (node, rest)) :
    ∃ u, t = u ++ rest ∧ IsRoot u node ∧ Neat u := by
  cases t with
  | nil => cases h
  | cons c t =>
    by_cases hc : c = '<'
    · subst hc
      rw [root_open] at h
      obtain ⟨⟨tag, t₁⟩, htag, hrest⟩ := bind_eq_ok_iff.1 h
      have hcut : tag.ending ≠ .cut := by
        intro hcut
        simp only [hcut] at hrest
        cases hrest
      obtain ⟨p, rfl, hplain, htidy, htakes⟩ := startTag_eq_ok htag hcut
      obtain ⟨c, v, rfl, hc⟩ := exists_of_isPlainName hplain
      have hneat : Neat ('<' :: c :: v) := (tidy_tag (ne_space_of_isNameStart hc) htidy).neat
      have hstep : ∀ z, root ('<' :: (c :: v ++ z)) = _ := fun z =>
        (root_open _).trans (bind_of_eq_ok (htakes z) _)
      cases hending : tag.ending with
      | cut => exact absurd hending hcut
      | closed =>
        simp only [hending] at hrest hstep
        obtain ⟨rfl, rfl⟩ := Prod.mk.inj (Except.ok.inj hrest)
        exact ⟨'<' :: c :: v, rfl, ⟨⟨c, v, rfl, hc⟩, hstep⟩, hneat⟩
      | opened =>
        simp only [hending] at hrest hstep
        obtain ⟨u, -, rfl, hu, hcontent⟩ := content_eq_ok hrest
        refine ⟨'<' :: (c :: v ++ u), by simp, ⟨⟨c, v ++ u, rfl, hc⟩, fun z => ?_⟩, hneat.append hu⟩
        rw [List.cons_append, List.append_assoc, hstep]
        exact hcontent z _ (by simp only [List.length_append]; omega)
    · rw [root] at h
      · cases h
      · exact fun _ heq => hc (List.cons.inj heq).1
      · exact List.cons_ne_nil c t

/-- A text that is read to its end is an element. -/
theorem exists_isRoot {t : Text} (h : (root t).toOption.map Prod.snd = some []) :
    ∃ node, IsRoot t node := by
  cases htaken : root t with
  | error f =>
    rw [htaken] at h
    cases h
  | ok r =>
    obtain ⟨node, rest⟩ := r
    rw [htaken] at h
    obtain rfl : rest = [] := Option.some.inj h
    obtain ⟨u, rfl, hu, -⟩ := root_eq_ok htaken
    exact ⟨node, (List.append_nil u).symm ▸ hu⟩

end Graft.Xml
