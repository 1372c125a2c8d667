import AboveFold.Proofs.Token.Calmer
import AboveFold.Url.Parse
import Mathlib.Data.Option.Basic

/-!
# The characters of a url

A url whose path has segments is written in graphic characters, ASCII without blanks and control characters:
whatever else stands in the text that it is read from is encoded, part by part, or keeps it from being a url
(`graphic_parse`). The same holds of a url that is read relative to such a url (`graphic_join`).
-/

namespace AboveFold.Url
open Text

/-- A character of ASCII that is neither blank nor a control character. -/
def isGraphic (c : Char) : Bool := 33 ≤ c.toNat && c.toNat ≤ 126

/-- A text of graphic characters. -/
def IsGraphic (cs : List Char) : Prop := ∀ c ∈ cs, isGraphic c = true

section Texts

variable {c : Char} {cs ds : List Char} {reserved : Char → Bool}

@[simp] theorem isGraphic_nil : IsGraphic [] := by simp [IsGraphic]

@[simp] theorem isGraphic_cons : IsGraphic (c :: cs) ↔ isGraphic c = true ∧ IsGraphic cs := List.forall_mem_cons

@[simp] theorem isGraphic_append : IsGraphic (cs ++ ds) ↔ IsGraphic cs ∧ IsGraphic ds := List.forall_mem_append

theorem IsGraphic.of_subset (h : IsGraphic ds) (sub : cs ⊆ ds) : IsGraphic cs := fun c mem => h c (sub mem)

theorem isGraphic_flatMap {α : Type} {f : α → List Char} {xs : List α} (each : ∀ x ∈ xs, IsGraphic (f x)) :
    IsGraphic (xs.flatMap f) := by
  intro c mem
  obtain ⟨x, hx, mem⟩ := List.mem_flatMap.1 mem
  exact each x hx c mem

theorem isGraphic_intercalate {sep : List Char} {xs : List (List Char)} (between : IsGraphic sep)
    (each : ∀ x ∈ xs, IsGraphic x) : IsGraphic (List.intercalate sep xs) := by
  induction xs with
  | nil => simp [List.intercalate]
  | cons x xs ih =>
    rw [List.forall_mem_cons] at each
    cases xs with
    | nil => simpa [List.intercalate] using each.1
    | cons y ys =>
      have later := ih each.2
      simp only [List.intercalate, List.intersperse_cons_cons, List.flatten_cons, isGraphic_append] at later ⊢
      exact ⟨each.1, between, later⟩

/-! ## Digits -/

theorem isGraphic_digitChar (n : Nat) : isGraphic (Nat.digitChar n) = true := by
  rcases Nat.lt_or_ge n 16 with small | large
  · have all : ∀ n : Fin 16, isGraphic (Nat.digitChar n) = true := by decide
    exact all ⟨n, small⟩
  · obtain ⟨m, rfl⟩ := Nat.exists_eq_add_of_le' large
    simp [Nat.digitChar, isGraphic]

theorem isGraphic_toDigits (base n : Nat) : IsGraphic (Nat.toDigits base n) := by
  have core (fuel : Nat) : ∀ n cs, IsGraphic cs → IsGraphic (Nat.toDigitsCore base fuel n cs) := by
    induction fuel with
    | zero => exact fun n cs h => h
    | succ fuel ih =>
      intro n cs h
      unfold Nat.toDigitsCore
      dsimp only
      split
      · exact isGraphic_cons.2 ⟨isGraphic_digitChar _, h⟩
      · exact ih _ _ (isGraphic_cons.2 ⟨isGraphic_digitChar _, h⟩)
  exact core _ n [] isGraphic_nil

theorem isGraphic_toString (n : Nat) : IsGraphic (toString n).toList := by
  have := isGraphic_toDigits 10 n
  simpa [toString, Nat.repr] using this

/-! ## Encoded text -/

theorem isGraphic_hexDigit {n : Nat} (h : n < 16) : isGraphic (hexDigit n) = true := by
  have all : ∀ n : Fin 16, isGraphic (hexDigit n) = true := by decide
  exact all ⟨n, h⟩

theorem isGraphic_encodeByte (b : UInt8) : IsGraphic (encodeByte b) := by
  have size := b.toNat_lt
  have high : isGraphic (hexDigit (b.toNat / 16)) = true := isGraphic_hexDigit (by omega)
  have low : isGraphic (hexDigit (b.toNat % 16)) = true := isGraphic_hexDigit (by omega)
  simp only [encodeByte, isGraphic_cons, high, low, isGraphic_nil, and_true]
  rfl

theorem isGraphic_of_solid (ascii : isAscii c = true) (printed : isControl c = false) (solid : c ≠ ' ') :
    isGraphic c = true := by
  have blank : c.toNat ≠ 32 := fun e => solid (Char.toNat_inj.1 e)
  simp only [isAscii, isControl, isGraphic, Bool.or_eq_false_iff, Bool.and_eq_true, decide_eq_true_eq,
    decide_eq_false_iff_not] at *
  omega

theorem isGraphic_encodeChar (blank : c = ' ' → reserved c = true) : IsGraphic (encodeChar reserved c) := by
  unfold encodeChar
  split
  next plain =>
    simp only [Bool.and_eq_true, Bool.not_eq_true'] at plain
    have solid : c ≠ ' ' := fun e => by simp [blank e] at plain
    simpa using isGraphic_of_solid plain.1.1 plain.1.2 solid
  next => exact isGraphic_flatMap fun b _ => isGraphic_encodeByte b

theorem isGraphic_encode (blank : ∀ c ∈ cs, c = ' ' → reserved c = true) : IsGraphic (encode reserved cs) :=
  isGraphic_flatMap fun c mem => isGraphic_encodeChar (blank c mem)

end Texts

/-! ## Hosts -/

section Hosts

variable {c : Char} {cs ds : List Char} {host : Host}

theorem of_guard {p : Prop} [Decidable p] {u : Unit} (h : (guard p : Option Unit) = some u) : p := by
  unfold guard at h
  split at h
  next holds => exact holds
  next => cases h

theorem isAscii_toLower (ascii : isAscii c = true) : isAscii c.toLower = true :=
  ascii_forall (p := fun c => isAscii c.toLower = true) (by decide) ascii

theorem isAscii_of_decodeAscii? (h : decodeAscii? cs = some ds) : ∀ d ∈ ds, isAscii d = true := by
  have small {n : Nat} (lt : n < 128) : isAscii (Char.ofNat n) = true := by
    have all : ∀ n : Fin 128, isAscii (Char.ofNat n) = true := by decide
    exact all ⟨n, lt⟩
  fun_induction decodeAscii? cs generalizing ds with
  | case1 =>
    cases h
    simp
  | case2 a b cs hex n lt =>
    rename_i ih
    obtain ⟨rest, e, rfl⟩ := Option.map_eq_some_iff.1 h
    exact List.forall_mem_cons.2 ⟨small lt, ih e⟩
  | case3 => cases h
  | case4 a b cs hex ih =>
    obtain ⟨rest, e, rfl⟩ := Option.map_eq_some_iff.1 h
    exact List.forall_mem_cons.2 ⟨rfl, ih e⟩
  | case5 c cs other ascii ih =>
    obtain ⟨rest, e, rfl⟩ := Option.map_eq_some_iff.1 h
    exact List.forall_mem_cons.2 ⟨ascii, ih e⟩
  | case6 => cases h

theorem isGraphic_groupsText (groups : List Nat) : IsGraphic (groupsText groups) := by
  refine isGraphic_intercalate (by simp [isGraphic]) fun x mem => ?_
  obtain ⟨n, -, rfl⟩ := List.mem_map.1 mem
  exact isGraphic_toDigits 16 n

theorem isGraphic_ipv6Text (groups : List Nat) : IsGraphic (ipv6Text groups) := by
  unfold ipv6Text
  split
  · exact isGraphic_groupsText groups
  · simp [isGraphic_groupsText, isGraphic]

theorem isGraphic_address (host : Host) (unnamed : ∀ name, host ≠ .name name) : IsGraphic host.text.toList := by
  cases host with
  | name name => exact absurd rfl (unnamed name)
  | ipv4 n =>
    rw [Host.text, String.toList_intercalate]
    refine isGraphic_intercalate (by simp [isGraphic]) fun x mem => ?_
    obtain ⟨part, hp, rfl⟩ := List.mem_map.1 mem
    obtain ⟨k, -, rfl⟩ := List.mem_map.1 hp
    exact isGraphic_toString _
  | ipv6 groups => simp [Host.text, isGraphic_ipv6Text, isGraphic]

theorem isGraphic_bracketed (h : Host.bracketed? cs = some host) : IsGraphic host.text.toList := by
  unfold Host.bracketed? at h
  split at h
  next =>
    obtain ⟨groups, -, rfl⟩ := Option.map_eq_some_iff.1 h
    exact isGraphic_address _ (by simp)
  next => cases h

theorem isGraphic_ofOpaque (h : Host.ofOpaque? cs = some host) : IsGraphic host.text.toList := by
  unfold Host.ofOpaque? at h
  split at h
  next => exact isGraphic_bracketed h
  next =>
    split at h
    next => cases h
    next plain =>
      obtain rfl := Option.some.inj h
      rw [Host.text, String.toList_ofList]
      refine isGraphic_encode fun c mem blank => absurd (List.any_eq_true.2 ⟨c, mem, ?_⟩) plain
      rw [blank]
      rfl

theorem isGraphic_ofSpecial (h : Host.ofSpecial? cs = some host) : IsGraphic host.text.toList := by
  unfold Host.ofSpecial? at h
  split at h
  next => exact isGraphic_bracketed h
  next =>
    obtain ⟨decoded, read, h⟩ := Option.bind_eq_some_iff.1 h
    obtain ⟨_, named, h⟩ := Option.bind_eq_some_iff.1 h
    have sound := (Bool.and_eq_true_iff.1 (of_guard named)).2
    split at h
    next =>
      obtain ⟨n, -, rfl⟩ := Option.map_eq_some_iff.1 h
      exact isGraphic_address _ (by simp)
    next =>
      obtain rfl := Option.some.inj h
      rw [Host.text, String.toList_ofList]
      intro c mem
      obtain ⟨d, hd, rfl⟩ := List.mem_map.1 mem
      have allowed := List.any_eq_false.1 (Bool.not_eq_true' _ ▸ sound) _ mem
      simp only [Bool.or_eq_true, not_or, Bool.not_eq_true] at allowed
      refine isGraphic_of_solid (isAscii_toLower (isAscii_of_decodeAscii? read d hd)) allowed.1.2 fun blank => ?_
      rw [blank] at allowed
      exact absurd allowed.1.1 (by decide)

theorem isGraphic_host {c : SchemeClass} {rest : List Char} (h : host? c cs = some (host, rest)) :
    IsGraphic host.text.toList := by
  unfold host? at h
  dsimp only at h
  split at h <;> obtain ⟨found, read, h⟩ := Option.bind_eq_some_iff.1 h
  all_goals
    obtain ⟨_, -, e⟩ := Option.bind_eq_some_iff.1 h
    obtain rfl : found = host := congrArg Prod.fst (Option.some.inj e)
  · exact isGraphic_ofSpecial read
  · exact isGraphic_ofOpaque read

/-! ## Authorities -/

theorem inFragment_blank : inFragment ' ' = true := by decide

theorem inUserinfo_blank : inUserinfo ' ' = true := by decide

theorem isGraphic_userinfo {c : SchemeClass} {user password : String} {rest : List Char}
    (h : userinfo? c cs = some (user, password, rest)) : IsGraphic user.toList ∧ IsGraphic password.toList := by
  unfold userinfo? at h
  dsimp only at h
  split at h
  next =>
    cases h
    simp
  next =>
    split at h
    next => cases h
    next =>
      have encoded (part : List Char) : IsGraphic (String.ofList (encode inUserinfo part)).toList := by
        rw [String.toList_ofList]
        exact isGraphic_encode fun c _ blank => blank ▸ inUserinfo_blank
      cases h
      exact ⟨encoded _, encoded _⟩

theorem isGraphic_authority {scheme : String} {a : Authority} {rest : List Char}
    (h : authority? scheme cs = some (a, rest)) : IsGraphic a.text.toList := by
  obtain ⟨⟨user, password, cs₁⟩, info, h⟩ := Option.bind_eq_some_iff.1 h
  obtain ⟨⟨host, cs₂⟩, named, h⟩ := Option.bind_eq_some_iff.1 h
  obtain ⟨⟨port, cs₃⟩, -, h⟩ := Option.bind_eq_some_iff.1 h
  obtain ⟨_, -, e⟩ := Option.bind_eq_some_iff.1 h
  obtain ⟨rfl, -⟩ := Prod.mk.inj (Option.some.inj e)
  have parts := isGraphic_userinfo info
  have printed (port : Nat) : IsGraphic (s!":{port}").toList := by
    change IsGraphic (":" ++ toString port).toList
    rw [String.toList_append, isGraphic_append]
    exact ⟨by simp [isGraphic], isGraphic_toString port⟩
  have credentials : IsGraphic (Authority.credentials ⟨user, password, host, port⟩).toList := by
    unfold Authority.credentials
    split
    next => split <;> simp [parts, isGraphic]
    next => simp
  rw [Authority.text, String.toList_append, String.toList_append, isGraphic_append, isGraphic_append]
  refine ⟨⟨credentials, isGraphic_host named⟩, ?_⟩
  cases port with
  | none => simp
  | some port => exact printed port

end Hosts

/-! ## Paths -/

section Paths

variable {c : SchemeClass} {cs path before segment : List Char}

theorem inPath_blank : inPath ' ' = true := by decide

theorem upToSlash_subset (path : List Char) : upToSlash path ⊆ path := by
  intro d mem
  exact List.mem_reverse.1 ((List.dropWhile_sublist _).subset (List.mem_reverse.1 mem))

theorem pop_subset (c : SchemeClass) (path : List Char) : pop c path ⊆ path := by
  unfold pop
  split
  · exact List.Subset.refl _
  · exact upToSlash_subset path

theorem dropSlash_subset (path : List Char) : dropSlash path ⊆ path := by
  unfold dropSlash
  dsimp only
  split
  · exact (List.dropLast_sublist _).subset
  · exact List.Subset.refl _

theorem isGraphic_addSlash (h : IsGraphic path) : IsGraphic (addSlash path) := by
  unfold addSlash
  split
  · exact h
  · simp [h, isGraphic]

theorem isGraphic_closeSegment (slash : Bool) (h : IsGraphic before) (h' : IsGraphic segment) :
    IsGraphic (closeSegment c before segment slash) := by
  have back : IsGraphic (pop c (dropSlash before)) :=
    (h.of_subset (dropSlash_subset before)).of_subset (pop_subset c _)
  have mark : IsGraphic (if slash then ['/'] else []) := by cases slash <;> simp [isGraphic]
  have letter : IsGraphic (segment.take 1) := h'.of_subset (List.take_subset 1 segment)
  unfold closeSegment
  dsimp only
  split
  · split
    · exact isGraphic_addSlash back
    · exact back
  split
  · exact isGraphic_addSlash h
  split
  · simp [h, letter, mark, isGraphic]
  · simp [h, h', mark]

theorem isGraphic_settleDrive (h : IsGraphic before) (h' : IsGraphic segment) :
    IsGraphic (settleDrive c before segment).1 ∧ IsGraphic (settleDrive c before segment).2 := by
  have whole : IsGraphic (before ++ segment ++ ['/']) := by simp [h, h', isGraphic]
  unfold settleDrive
  dsimp only
  split
  · rw [List.splitAt_eq]
    exact ⟨whole.of_subset (List.take_subset _ _), whole.of_subset (List.drop_subset _ _)⟩
  · exact ⟨h, h'⟩

theorem isGraphic_pathFrom (h : IsGraphic before) (h' : IsGraphic segment) :
    IsGraphic (pathFrom c before segment cs).1 := by
  induction cs generalizing before segment with
  | nil => exact isGraphic_closeSegment false h h'
  | cons d cs ih =>
    unfold pathFrom
    split
    next => exact ih (isGraphic_closeSegment true h h') isGraphic_nil
    next =>
      split
      next => exact isGraphic_closeSegment false h h'
      next =>
        obtain ⟨settled, open_⟩ := isGraphic_settleDrive (c := c) h h'
        refine ih settled ?_
        exact isGraphic_append.2 ⟨open_, isGraphic_encodeChar fun blank => blank ▸ inPath_blank⟩

theorem isGraphic_readPath (h : IsGraphic before) : IsGraphic (readPath c before cs).1 := by
  have read : IsGraphic (pathFrom c before [] cs).1 := isGraphic_pathFrom h isGraphic_nil
  unfold readPath
  dsimp only
  split
  · exact isGraphic_cons.2 ⟨rfl, read.of_subset (List.dropWhile_sublist _).subset⟩
  · exact read

theorem isGraphic_pathAfterAuthority : IsGraphic (pathAfterAuthority c cs).1 := by
  have slash : IsGraphic ['/'] := by simp [isGraphic]
  unfold pathAfterAuthority
  split
  · exact isGraphic_readPath slash
  split
  · exact isGraphic_nil
  split
  · exact isGraphic_nil
  · refine isGraphic_readPath ?_
    split
    · exact isGraphic_nil
    · exact slash

end Paths

/-! ## Urls -/

/-- A url whose parts are written in graphic characters. -/
structure Graphic (u : Url) : Prop where
  scheme : IsGraphic u.scheme.toList
  authority : ∀ a ∈ u.authority, IsGraphic a.text.toList
  path : IsGraphic u.path
  query : ∀ q ∈ u.query, IsGraphic q.toList
  fragment : ∀ f ∈ u.fragment, IsGraphic f.toList

section Urls

variable {u base : Url} {cs path rest : List Char} {scheme : String}

/-- **A url is written as its parts are.** -/
theorem Graphic.text (h : u.Graphic) : IsGraphic u.text.toList := by
  have hierarchy : IsGraphic u.hierarchyText.toList := by
    unfold hierarchyText
    split
    next a e => simpa [isGraphic] using h.authority a e
    next => split <;> simp [isGraphic]
  have query : IsGraphic (u.query.elim "" ("?" ++ ·)).toList := by
    cases e : u.query with
    | none => simp
    | some q => simpa [isGraphic] using h.query q e
  have fragment : IsGraphic (u.fragment.elim "" ("#" ++ ·)).toList := by
    cases e : u.fragment with
    | none => simp
    | some f => simpa [isGraphic] using h.fragment f e
  unfold Url.text
  simp only [String.toList_append, isGraphic_append, String.toList_ofList]
  exact ⟨⟨⟨⟨⟨h.scheme, by simp [isGraphic]⟩, hierarchy⟩, h.path⟩, query⟩, fragment⟩

theorem inQuery_blank (special : Bool) : inQuery special ' ' = true := by
  cases special <;> decide

theorem isGraphic_fragmentOf (cs : List Char) : IsGraphic (fragmentOf cs).toList := by
  rw [fragmentOf, String.toList_ofList]
  exact isGraphic_encode fun c _ blank => blank ▸ inFragment_blank

theorem Graphic.withFragment (h : u.Graphic) (cs : List Char) : Graphic { u with fragment := some (fragmentOf cs) } :=
  { h with
    fragment := by
      rintro _ ⟨⟩
      exact isGraphic_fragmentOf cs }

theorem Graphic.withoutFragment (h : u.Graphic) : Graphic { u with fragment := none } :=
  { h with fragment := by simp }

theorem Graphic.withSuffix (h : u.Graphic) (cs : List Char) : (u.withSuffix cs).Graphic := by
  unfold Url.withSuffix
  dsimp only
  split
  next cs =>
    refine ⟨h.scheme, h.authority, h.path, ?_, ?_⟩
    · rintro _ ⟨⟩
      rw [String.toList_ofList]
      exact isGraphic_encode fun c _ blank => blank ▸ inQuery_blank _
    · intro f mem
      split at mem
      next => exact Option.some.inj mem ▸ isGraphic_fragmentOf _
      next => cases mem
  next =>
    refine ⟨h.scheme, h.authority, h.path, by simp, ?_⟩
    intro f mem
    split at mem
    next => exact Option.some.inj mem ▸ isGraphic_fragmentOf _
    next => cases mem

theorem Graphic.withPath (h : u.Graphic) (printed : IsGraphic path) (rest : List Char) :
    (u.withPath path rest).Graphic := by
  have moved : Graphic { u with path } := ⟨h.scheme, h.authority, printed, h.query, h.fragment⟩
  exact moved.withSuffix rest

/-- What comes after two slashes is read as a graphic url. -/
theorem graphic_afterSlashes (printed : IsGraphic scheme.toList) (h : afterSlashes? scheme cs = some u) :
    u.Graphic := by
  obtain ⟨⟨authority, cs₁⟩, read, e⟩ := Option.bind_eq_some_iff.1 h
  obtain rfl := Option.some.inj e
  refine Graphic.withSuffix ⟨printed, ?_, isGraphic_pathAfterAuthority, by simp, by simp⟩ _
  rintro _ ⟨⟩
  exact isGraphic_authority read

theorem graphic_relative (h : base.Graphic) (read : relative? base cs = some u) : u.Graphic := by
  have slash : IsGraphic ['/'] := by simp [isGraphic]
  unfold relative? at read
  dsimp only at read
  split at read
  next => exact Option.some.inj read ▸ h.withoutFragment
  next => exact Option.some.inj read ▸ h.withFragment _
  next => exact Option.some.inj read ▸ h.withSuffix _
  next d ds _ _ =>
    split at read
    next =>
      split at read
      next => exact graphic_afterSlashes h.scheme read
      next => exact Option.some.inj read ▸ h.withPath (isGraphic_readPath slash) _
    next =>
      have kept : IsGraphic (pop base.schemeClass base.path) := h.path.of_subset (pop_subset _ _)
      refine Option.some.inj read ▸ h.withPath (isGraphic_readPath ?_) _
      split
      · exact slash
      · exact kept

/-! ## Files -/

theorem graphic_localFile (printed : IsGraphic path) (rest : List Char) : (localFile path rest).Graphic := by
  refine Graphic.withSuffix ⟨by simp [isGraphic], ?_, printed, by simp, by simp⟩ rest
  rintro _ ⟨⟩
  simp [Authority.localhost, Authority.text, Authority.credentials, Authority.hasCredentials, Host.text]

theorem graphic_fileAfterSlashes (read : fileAfterSlashes? cs = some u) : u.Graphic := by
  have slash : IsGraphic ['/'] := by simp [isGraphic]
  unfold fileAfterSlashes? at read
  dsimp only at read
  split at read
  next => exact Option.some.inj read ▸ graphic_localFile (isGraphic_readPath slash) _
  next =>
    obtain ⟨host, named, e⟩ := Option.bind_eq_some_iff.1 read
    split at e
    next => exact Option.some.inj e ▸ graphic_localFile isGraphic_pathAfterAuthority _
    next =>
      obtain rfl := Option.some.inj e
      refine Graphic.withSuffix ⟨by simp [isGraphic], ?_, isGraphic_pathAfterAuthority, by simp, by simp⟩ _
      rintro _ ⟨⟩
      simpa [Authority.text, Authority.credentials, Authority.hasCredentials] using isGraphic_ofSpecial named

theorem graphic_fileFromRoot {base : Option Url} (h : ∀ b ∈ base, Graphic b) (cs : List Char) :
    (fileFromRoot base cs).Graphic := by
  have root := graphic_localFile isGraphic_nil []
  unfold fileFromRoot
  dsimp only
  split
  next => exact root.withPath (isGraphic_readPath isGraphic_nil) _
  next base =>
    have graphic := h _ rfl
    have drive : IsGraphic ('/' :: (base.path.drop 1).takeWhile (· ≠ '/')) := by
      have inner := (graphic.path.of_subset (List.drop_subset 1 _)).of_subset
        (List.takeWhile_sublist (· ≠ '/')).subset
      exact isGraphic_cons.2 ⟨rfl, inner⟩
    split
    next => exact root.withPath (isGraphic_readPath isGraphic_nil) _
    next =>
      split
      next => exact root.withPath (isGraphic_readPath drive) _
      next => exact graphic.withPath (isGraphic_readPath isGraphic_nil) _

theorem graphic_fileBelow {base : Option Url} (h : ∀ b ∈ base, Graphic b)
    (read : file?.fileBelow base cs = some u) : u.Graphic := by
  have fromRoot := @isGraphic_readPath .file cs ['/'] (by simp [isGraphic])
  unfold file?.fileBelow at read
  split at read
  next => exact Option.some.inj read ▸ graphic_localFile fromRoot _
  next base =>
    have graphic := h _ rfl
    have below := @isGraphic_readPath .file cs _ (graphic.path.of_subset (pop_subset .file base.path))
    split at read
    next => exact Option.some.inj read ▸ graphic.withoutFragment
    next => exact Option.some.inj read ▸ graphic.withFragment _
    next => exact Option.some.inj read ▸ graphic.withSuffix _
    next =>
      split at read
      next => exact Option.some.inj read ▸ graphic_localFile fromRoot _
      next => exact Option.some.inj read ▸ graphic.withPath below _

theorem graphic_file {base : Option Url} (h : ∀ b ∈ base, Graphic b) (read : file? base cs = some u) : u.Graphic := by
  unfold file? at read
  split at read
  next =>
    split at read
    next => exact graphic_fileAfterSlashes read
    next =>
      split at read
      next => exact Option.some.inj read ▸ graphic_fileFromRoot h _
      next => exact graphic_fileBelow h read
  next =>
    split at read
    next => exact Option.some.inj read ▸ graphic_fileFromRoot h _
    next => exact graphic_fileBelow h read
  next => exact graphic_fileBelow h read

/-! ## Absolute urls -/

theorem isGraphic_toLower_of_isSchemeChar {c : Char} (h : isSchemeChar c = true) : isGraphic c.toLower = true := by
  have ascii : isAscii c = true := by
    simp only [isSchemeChar, Char.isAlphanum, Bool.or_eq_true, Token.isAlpha_iff, decide_eq_true_eq] at h
    rcases h with ((((letter | digit) | rfl) | rfl) | rfl)
    · simp only [isAscii, decide_eq_true_eq]
      omega
    · have bounds : 48 ≤ c.toNat ∧ c.toNat ≤ 57 := by simpa [Char.isDigit, UInt32.le_iff_toNat_le] using digit
      simp only [isAscii, decide_eq_true_eq]
      omega
    all_goals rfl
  exact ascii_forall (p := fun c => isSchemeChar c = true → isGraphic c.toLower = true) (by decide) ascii h

theorem isGraphic_scheme (h : scheme? cs = some (scheme, rest)) : IsGraphic scheme.toList := by
  unfold scheme? at h
  split at h
  next =>
    obtain ⟨rfl, -⟩ := Prod.mk.inj (Option.some.inj h)
    rw [lower, String.toList_ofList, String.toList_ofList]
    intro c mem
    obtain ⟨d, hd, rfl⟩ := List.mem_map.1 mem
    exact isGraphic_toLower_of_isSchemeChar (List.all_eq_true.1 List.all_takeWhile d hd)
  next => cases h

theorem withSuffix_isOpaque (u : Url) (cs : List Char) : (u.withSuffix cs).isOpaque = u.isOpaque := by
  unfold Url.withSuffix
  dsimp only
  split <;> rfl

/-- What is encoded as bytes starts with a percent sign. -/
theorem head_encodeChar (reserved : Char → Bool) (c : Char) :
    ∃ d ds, encodeChar reserved c = d :: ds ∧ (d = c ∨ d = '%') := by
  unfold encodeChar
  split
  next => exact ⟨c, [], rfl, .inl rfl⟩
  next =>
    cases bytes : String.utf8EncodeChar c with
    | nil =>
      have size := String.length_utf8EncodeChar c
      rw [bytes] at size
      exact absurd size.symm (Nat.ne_of_gt c.utf8Size_pos)
    | cons b bs => exact ⟨'%', _, rfl, .inr rfl⟩

/-- A path that has no segments is read as one that has none. -/
theorem isOpaque_readOpaque (opening : cs.head? ≠ some '/') (scheme : String) :
    isOpaque ⟨scheme, none, (readOpaque cs).1, none, none⟩ = true := by
  suffices head : (readOpaque cs).1.head? ≠ some '/' by simpa [isOpaque] using head
  cases cs with
  | nil => simp [readOpaque, encode]
  | cons c cs =>
    unfold readOpaque
    dsimp only
    rw [List.takeWhile_cons]
    split
    next =>
      obtain ⟨d, ds, e, first⟩ := head_encodeChar (fun _ => false) c
      rw [encode, List.flatMap_cons, e, List.cons_append, List.head?_cons]
      rcases first with rfl | rfl
      · exact opening
      · decide
    next => simp [encode]

theorem graphic_other (printed : IsGraphic scheme.toList) (read : other? scheme cs = some u)
    (segments : u.isOpaque = false) : u.Graphic := by
  unfold other? at read
  split at read
  next => exact graphic_afterSlashes printed read
  next =>
    by_cases opening : cs.head? = some '/'
    · rw [if_pos opening] at read
      have path := @isGraphic_readPath .other (cs.drop 1) ['/'] (by simp [isGraphic])
      exact Option.some.inj read ▸ Graphic.withSuffix ⟨printed, by simp, path, by simp, by simp⟩ _
    · rw [if_neg opening] at read
      obtain rfl := Option.some.inj read
      have unsegmented := isOpaque_readOpaque opening scheme
      rw [withSuffix_isOpaque] at segments
      exact absurd (segments.symm.trans unsegmented) Bool.false_ne_true

/-- **An absolute url whose path has segments is graphic.** -/
theorem graphic_parse {s : String} (read : Url.parse s = some u) (segments : u.isOpaque = false) : u.Graphic := by
  unfold Url.parse read? at read
  cases e : scheme? (significant s) with
  | none => simp [e] at read
  | some named =>
    obtain ⟨scheme, rest⟩ := named
    have printed := isGraphic_scheme e
    rw [e] at read
    dsimp only at read
    cases k : SchemeClass.of scheme with
    | file =>
      rw [k] at read
      exact graphic_file (by simp) read
    | other =>
      rw [k] at read
      exact graphic_other printed read segments
    | web =>
      rw [k] at read
      exact graphic_afterSlashes printed read

/-! ## Relative urls -/

/-- **A relative url is joined to a graphic url** if its base is one. -/
theorem graphic_join {s : String} (h : base.Graphic) (relative : Url.parse s = none) (read : base.join s = some u) :
    u.Graphic := by
  unfold Url.parse read? at relative
  unfold Url.join read? at read
  cases e : scheme? (significant s) with
  | some named =>
    obtain ⟨scheme, rest⟩ := named
    rw [e] at relative read
    dsimp only at relative read
    -- with a scheme of its own the text is relative to a base of that scheme only
    cases k : SchemeClass.of scheme with
    | file =>
      rw [k] at read
      refine graphic_file (fun b mem => ?_) read
      obtain ⟨same, -⟩ := Option.mem_filter_iff.1 mem
      exact Option.some.inj same ▸ h
    | other =>
      rw [k] at relative read
      simp [relative] at read
    | web =>
      rw [k] at relative read
      have absolute : afterSlashes? scheme (rest.dropWhile isSlash) = none := relative
      have same {b : Url} (mem : (some base).filter (·.scheme = scheme) = some b) : b.Graphic := by
        obtain ⟨same, -⟩ := Option.mem_filter_iff.1 mem
        exact Option.some.inj same ▸ h
      dsimp only at read
      split at read
      next e _ => exact graphic_relative (same e) read
      next e _ => exact graphic_relative (same e) read
      next => simp [absolute] at read
  | none =>
    rw [e] at read
    dsimp only at read
    split at read
    next => exact Option.some.inj read ▸ h.withFragment _
    next =>
      split at read
      next => cases read
      next =>
        split at read
        next => exact graphic_file (fun b mem => Option.some.inj mem ▸ h) read
        next => exact graphic_relative h read

end Urls

end AboveFold.Url
