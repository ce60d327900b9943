import Mathlib.Data.List.TakeWhile
import ServiceDirectory.Endpoint

/-! Which endpoints have an address that can be connected to: what stands between scheme and path is
a host, a colon and a port. Numeric addresses are no more than that, so it makes no difference that
they are looked for first. -/
namespace ServiceDirectory.Endpoint
open Number (isDigit naturalOf)
variable {cs rest host port : List Char}

structure Numeral (largest : Nat) (cs digits : List Char) : Prop where
  signed : cs = digits ∨ cs = '+' :: digits
  digit : digits ≠ []
  each : ∀ c ∈ digits, isDigit c = true
  fits : naturalOf digits ≤ largest

/-- The port follows the last of the colons. -/
structure HostAndPort (cs host port : List Char) : Prop where
  split : cs = host ++ ':' :: port
  last : ':' ∉ port
  named : host ≠ []
  port : ∃ digits, Numeral largestPort port digits

theorem readBoundedIff {largest : Nat} :
    (Number.readBounded? largest cs).isSome = true ↔ ∃ digits, Numeral largest cs digits := by
  have reads (digits : List Char) :
      ((Number.readNatural? digits).filter (· ≤ largest)).isSome = true ↔ digits ≠ [] ∧
        (∀ c ∈ digits, isDigit c = true) ∧ naturalOf digits ≤ largest := by
    unfold Number.readNatural?
    split
    · rename_i fine
      simp only [Bool.and_eq_true, Bool.not_eq_true', List.isEmpty_eq_false_iff, List.all_eq_true]
        at fine
      simp [fine.1, Option.filter, and_iff_right fine.2]
    · rename_i unfit
      simp only [Bool.and_eq_true, Bool.not_eq_true', List.isEmpty_eq_false_iff, List.all_eq_true]
        at unfit
      simp only [Option.filter_none, Option.isSome_none, Bool.false_eq_true, false_iff]
      exact fun ⟨digit, all, _⟩ => unfit ⟨digit, all⟩
  unfold Number.readBounded?
  split
  · rename_i digits
    rw [reads]
    constructor
    · rintro ⟨digit, all, fits⟩
      exact ⟨digits, .inr rfl, digit, all, fits⟩
    · rintro ⟨others, same | same, digit, all, fits⟩
      · subst same
        cases all '+' List.mem_cons_self
      · cases same
        exact ⟨digit, all, fits⟩
  · rename_i unsigned
    rw [reads]
    constructor
    · rintro ⟨digit, all, fits⟩
      exact ⟨cs, .inl rfl, digit, all, fits⟩
    · rintro ⟨digits, rfl | rfl, digit, all, fits⟩
      · exact ⟨digit, all, fits⟩
      · exact absurd rfl (unsigned digits)

theorem stopsAt {mark c : Char} (ends : cs.dropWhile (· != mark) = c :: rest) :
    cs = cs.takeWhile (· != mark) ++ mark :: rest := by
  have fails := List.head_dropWhile_not (p := (· != mark)) (l := cs)
    (by rw [ends]; exact List.cons_ne_nil _ _)
  obtain rfl : c = mark := by simpa [ends] using fails
  rw [← ends, List.takeWhile_append_dropWhile]

theorem splitLastColonIff :
    splitLastColon? cs = some (host, port) ↔ cs = host ++ ':' :: port ∧ ':' ∉ port := by
  constructor
  · intro splits
    simp only [splitLastColon?] at splits
    split at splits
    · cases splits
    · rename_i c before ends
      obtain ⟨rfl, rfl⟩ := Prod.mk.inj (Option.some.inj splits)
      refine ⟨?_, fun inside => ?_⟩
      · have back := congrArg List.reverse (stopsAt ends)
        rw [List.reverse_reverse] at back
        simpa using back
      · simpa using List.mem_takeWhile_imp (List.mem_reverse.mp inside)
  · rintro ⟨rfl, last⟩
    have others : ∀ c ∈ port.reverse, (c != ':') = true := fun c mem =>
      bne_iff_ne.mpr fun same => last (same ▸ List.mem_reverse.mp mem)
    have back : (host ++ ':' :: port).reverse = port.reverse ++ ':' :: host.reverse := by simp
    simp only [splitLastColon?, back, List.takeWhile_append_of_pos others,
      List.dropWhile_append_of_pos others]
    simp

theorem scanMarkIs {mark : Char} (scans : scanMark mark cs = some rest) : cs = mark :: rest := by
  cases cs with
  | nil => cases scans
  | cons c more =>
    simp only [scanMark] at scans
    split at scans
    · rename_i same
      cases scans
      rw [beq_iff_eq.mp same]
    · cases scans

theorem scanNumberIs {largest : Nat} (scans : scanNumber largest cs = some rest) :
    ∃ digits, cs = digits ++ rest ∧ Numeral largest digits digits := by
  simp only [scanNumber] at scans
  split at scans
  · cases scans
  · rename_i fine
    cases scans
    simp only [Bool.or_eq_true, decide_eq_true_eq, not_or, List.isEmpty_iff] at fine
    exact ⟨_, List.takeWhile_append_dropWhile.symm, .inl rfl, fine.1,
      fun c mem => List.mem_takeWhile_imp mem, Nat.not_lt.mp fine.2⟩

theorem scanByteTakes (scans : scanByte cs = some rest) : ∃ c used, cs = c :: used ++ rest := by
  simp only [scanByte] at scans
  split at scans
  · cases scans
  · obtain ⟨digits, rfl, numeral⟩ := scanNumberIs scans
    obtain ⟨c, used, rfl⟩ := List.exists_cons_of_ne_nil numeral.digit
    exact ⟨c, used, rfl⟩

theorem scanGroupTakes (scans : scanGroup cs = some rest) : rest <:+ cs := by
  simp only [scanGroup] at scans
  split at scans
  · cases scans
  · cases scans
    exact List.dropWhile_suffix _

theorem scanFourBytesTakes (scans : scanFourBytes cs = some rest) :
    ∃ c used, cs = c :: used ++ rest := by
  simp only [scanFourBytes, Option.bind_eq_bind, Option.bind_eq_some_iff] at scans
  obtain ⟨_, one, _, dotOne, _, two, _, dotTwo, _, three, _, dotThree, four⟩ := scans
  obtain ⟨c, used, rfl⟩ := scanByteTakes one
  obtain ⟨c₂, used₂, rfl⟩ := scanByteTakes two
  obtain ⟨c₃, used₃, rfl⟩ := scanByteTakes three
  obtain ⟨c₄, used₄, rfl⟩ := scanByteTakes four
  rw [scanMarkIs dotOne, scanMarkIs dotTwo, scanMarkIs dotThree]
  refine ⟨c, used ++ '.' :: c₂ :: used₂ ++ '.' :: c₃ :: used₃ ++ '.' :: c₄ :: used₄, ?_⟩
  simp

theorem scanGroupsTake (room : Nat) (first : Bool) (cs : List Char) :
    (scanGroups room first cs).2 <:+ cs := by
  induction room generalizing first cs with
  | zero => exact List.suffix_refl _
  | succ room ih =>
    have starts {start : List Char}
        (begins : (if first then some cs else scanMark ':' cs) = some start) : start <:+ cs := by
      split at begins
      · cases begins
        exact List.suffix_refl _
      · rw [scanMarkIs begins]
        exact List.suffix_cons _ _
    simp only [scanGroups]
    split
    · rename_i bytes
      split at bytes
      · cases bytes
      · obtain ⟨start, begins, bytes⟩ := Option.bind_eq_some_iff.mp bytes
        obtain ⟨c, used, rfl⟩ := scanFourBytesTakes bytes
        exact (List.suffix_append _ _).trans (starts begins)
    · rename_i rest _ group
      obtain ⟨start, begins, group⟩ := Option.bind_eq_some_iff.mp group
      exact (ih false rest).trans ((scanGroupTakes group).trans (starts begins))
    · exact List.suffix_refl _

theorem scanEightGroupsTake (scans : scanEightGroups cs = some rest) : rest <:+ cs := by
  have head := scanGroupsTake allGroups true cs
  simp only [scanEightGroups] at scans
  split at scans
  · cases scans
    exact head
  · split at scans
    · cases scans
    · simp only [Option.bind_eq_bind, Option.bind_eq_some_iff] at scans
      obtain ⟨_, one, more, two, same⟩ := scans
      cases same
      rw [scanMarkIs one, scanMarkIs two] at head
      exact (scanGroupsTake _ true more).trans (((List.suffix_cons _ _).trans
        (List.suffix_cons _ _)).trans head)

theorem scanScopeTakes (cs : List Char) : (scanScope cs).getD cs <:+ cs := by
  cases scans : scanScope cs with
  | none => exact List.suffix_refl _
  | some rest =>
    obtain ⟨more, mark, number⟩ := Option.bind_eq_some_iff.mp scans
    obtain ⟨digits, rfl, _⟩ := scanNumberIs number
    rw [scanMarkIs mark]
    exact (List.suffix_append _ _).trans (List.suffix_cons _ _)

theorem scanPortIs (scans : scanPort cs = some []) :
    ∃ port, cs = ':' :: port ∧ Numeral largestPort port port := by
  obtain ⟨more, mark, number⟩ := Option.bind_eq_some_iff.mp scans
  obtain ⟨digits, same, numeral⟩ := scanNumberIs number
  rw [List.append_nil] at same
  exact ⟨digits, same ▸ scanMarkIs mark, numeral⟩

theorem portEnds {c : Char} {used more : List Char} (scans : scanPort more = some []) :
    ∃ host port, HostAndPort (c :: used ++ more) host port := by
  obtain ⟨port, rfl, numeral⟩ := scanPortIs scans
  refine ⟨c :: used, port, rfl, fun inside => ?_, List.cons_ne_nil _ _, port, numeral⟩
  cases numeral.each ':' inside

theorem numericHasPort (numeric : isNumeric cs = true) :
    ∃ host port, HostAndPort cs host port := by
  rcases Option.or_eq_some_iff.mp (eq_of_beq numeric) with plain | ⟨_, bracketed⟩
  · obtain ⟨more, bytes, port⟩ := Option.bind_eq_some_iff.mp plain
    obtain ⟨c, used, rfl⟩ := scanFourBytesTakes bytes
    exact portEnds port
  · simp only [scanBracketed, Option.bind_eq_bind, Option.bind_eq_some_iff] at bracketed
    obtain ⟨inner, opens, groups, eight, more, closes, port⟩ := bracketed
    have suffix : more <:+ inner := by
      have closed := scanScopeTakes groups
      rw [scanMarkIs closes] at closed
      exact (List.suffix_cons _ _).trans (closed.trans (scanEightGroupsTake eight))
    obtain ⟨used, rfl⟩ := suffix
    rw [scanMarkIs opens]
    exact portEnds port

theorem socketAddressIff {endpoint address : String} :
    socketAddress? endpoint = some address ↔
      address = String.ofList (authority endpoint) ∧
        ∃ host port, HostAndPort (authority endpoint) host port := by
  simp only [socketAddress?]
  split
  · rename_i numeric
    rw [Option.some.injEq, and_iff_left (numericHasPort numeric), eq_comm]
  · split
    · rename_i unsplit
      refine ⟨nofun, fun ⟨_, host, port, fits⟩ => ?_⟩
      rw [splitLastColonIff.mpr ⟨fits.split, fits.last⟩] at unsplit
      cases unsplit
    · rename_i host port splits
      obtain ⟨whole, last⟩ := splitLastColonIff.mp splits
      split
      · rename_i unfit
        refine ⟨nofun, fun ⟨_, host', port', fits⟩ => ?_⟩
        rw [splitLastColonIff.mpr ⟨fits.split, fits.last⟩] at splits
        cases splits
        have reads := readBoundedIff.mpr fits.port
        rw [Option.isNone_eq_false_iff.mpr reads, Bool.or_false, List.isEmpty_iff] at unfit
        exact absurd unfit fits.named
      · rename_i fine
        rw [Bool.not_eq_true, Bool.or_eq_false_iff, List.isEmpty_eq_false_iff,
          Option.isNone_eq_false_iff] at fine
        rw [Option.some.injEq, ← whole, eq_comm]
        exact ⟨fun same => ⟨same, host, port, whole, last, fine.1, readBoundedIff.mp fine.2⟩,
          And.left⟩

def schemeMark : List Char := [':', '/', '/']

inductive AfterScheme (cs : List Char) : List Char → Prop where
  | whole (absent : ¬schemeMark <:+: cs) : AfterScheme cs cs
  | after {before rest : List Char} (split : cs = before ++ schemeMark ++ rest)
      (first : ∀ other more, cs = other ++ schemeMark ++ more → before.length ≤ other.length) :
      AfterScheme cs rest

structure Authority (cs address : List Char) : Prop where
  cut : ∃ rest, AfterScheme cs rest ∧ (rest = address ∨ ∃ path, rest = address ++ '/' :: path)
  pathless : '/' ∉ address

theorem afterSchemeFirst (whole cs : List Char) :
    ¬schemeMark <:+: cs ∧ afterScheme whole cs = whole ∨
      ∃ before, cs = before ++ schemeMark ++ afterScheme whole cs ∧
        ∀ other more, cs = other ++ schemeMark ++ more → before.length ≤ other.length := by
  induction cs with
  | nil => exact .inl ⟨by simp [schemeMark], rfl⟩
  | cons c tail ih =>
    by_cases starts : schemeMark <+: c :: tail
    · obtain ⟨more, same⟩ := starts
      rw [← same]
      exact .inr ⟨[], rfl, fun _ _ _ => Nat.zero_le _⟩
    · have goesOn : afterScheme whole (c :: tail) = afterScheme whole tail := by
        rw [afterScheme]
        rintro more rfl rfl
        exact starts ⟨more, rfl⟩
      rw [goesOn]
      rcases ih with ⟨absent, same⟩ | ⟨before, split, first⟩
      · refine .inl ⟨fun inside => ?_, same⟩
        exact (List.infix_cons_iff.mp inside).elim starts absent
      · refine .inr ⟨c :: before, congrArg (c :: ·) split, fun other more whole => ?_⟩
        cases other with
        | nil => exact absurd ⟨more, whole.symm⟩ starts
        | cons d other => exact Nat.succ_le_succ (first other more (List.cons.inj whole).2)

theorem afterSchemeIff : AfterScheme cs rest ↔ rest = afterScheme cs cs := by
  rcases afterSchemeFirst cs cs with ⟨absent, same⟩ | ⟨before, split, first⟩
  · rw [same]
    constructor
    · rintro (_ | @⟨before, _, split, _⟩)
      · rfl
      · exact absurd ⟨before, rest, split.symm⟩ absent
    · rintro rfl
      exact .whole absent
  · constructor
    · rintro (absent | @⟨other, _, split', first'⟩)
      · exact absurd ⟨before, _, split.symm⟩ absent
      · have level := Nat.le_antisymm (first other rest split') (first' before _ split)
        rw [List.append_assoc] at split split'
        have tails := (List.append_inj (split.symm.trans split') level).2
        exact (List.append_cancel_left tails).symm
    · rintro rfl
      exact .after split first

theorem cutIff {address : List Char} :
    (rest = address ∨ ∃ path, rest = address ++ '/' :: path) ∧ '/' ∉ address ↔
      address = rest.takeWhile (· != '/') := by
  constructor
  · rintro ⟨ends, pathless⟩
    have others : ∀ c ∈ address, (c != '/') = true := fun c mem =>
      bne_iff_ne.mpr fun same => pathless (same ▸ mem)
    rcases ends with rfl | ⟨path, rfl⟩
    · exact (List.takeWhile_eq_self_iff.mpr others).symm
    · simp [List.takeWhile_append_of_pos others]
  · rintro rfl
    refine ⟨?_, fun inside => by simpa using List.mem_takeWhile_imp inside⟩
    cases drops : rest.dropWhile (· != '/') with
    | nil =>
      have whole := List.takeWhile_append_dropWhile (p := (· != '/')) (l := rest)
      rw [drops, List.append_nil] at whole
      exact .inl whole.symm
    | cons c path => exact .inr ⟨path, stopsAt drops⟩

theorem authorityIff {endpoint : String} {address : List Char} :
    Authority endpoint.toList address ↔ address = authority endpoint := by
  constructor
  · rintro ⟨⟨rest, after, ends⟩, pathless⟩
    rw [cutIff.mp ⟨ends, pathless⟩, afterSchemeIff.mp after]
    rfl
  · intro same
    obtain ⟨ends, pathless⟩ := cutIff.mpr same
    exact ⟨⟨_, afterSchemeIff.mpr rfl, ends⟩, pathless⟩

theorem schemeless {address : List Char} (pathless : '/' ∉ address) :
    ¬schemeMark <:+: address := fun inside =>
  pathless (inside.subset (by decide))

theorem authorityOfAddress {address : List Char} (pathless : '/' ∉ address) :
    authority (String.ofList address) = address := by
  refine (authorityIff.mp ⟨⟨address, ?_, .inl rfl⟩, pathless⟩).symm
  rw [String.toList_ofList]
  exact .whole (schemeless pathless)

/-- An endpoint can be connected to just when the text between its scheme and its path is a host, a
colon and a port, and then that text is the address. So an address has neither scheme nor path, and
is its own address. -/
theorem addressIsAuthority (endpoint : String) :
    ∃ text, (∀ other, Authority endpoint.toList other ↔ other = text) ∧
      (∀ address, socketAddress? endpoint = some address ↔
        address = String.ofList text ∧ ∃ host port, HostAndPort text host port) ∧
      ∀ address, socketAddress? endpoint = some address →
        ¬schemeMark <:+: address.toList ∧ '/' ∉ address.toList ∧
          socketAddress? address = some address := by
  refine ⟨authority endpoint, fun _ => authorityIff, fun _ => socketAddressIff,
    fun address found => ?_⟩
  obtain ⟨rfl, fits⟩ := socketAddressIff.mp found
  have pathless := (authorityIff.mpr (rfl : authority endpoint = _)).pathless
  rw [String.toList_ofList]
  refine ⟨schemeless pathless, pathless, socketAddressIff.mpr ?_⟩
  rw [authorityOfAddress pathless]
  exact ⟨rfl, fits⟩

example : socketAddress? "tcp://[fe80::1%3]:08080/a:1" = some "[fe80::1%3]:08080" ∧
    isNumeric "[fe80::1%3]:08080".toList = true ∧ socketAddress? "a://b://c:1" = none := by
  decide +kernel

end ServiceDirectory.Endpoint
