import Firewall.Rule.Expand
import Mathlib

/-!
# Address families of object values

Expanding an iptables rule restricts the rule to the address family of every
value it substitutes, as `Address.classify` reads the value as a network.
This module says which values have a family, and when reading one raises.

- A text is read by its characters.  Reading raises exactly for an address of
  the family followed by `/` and a mask that is no mask of the family or leaves
  bits of the address set below its prefix, such as `10.0.0.1/24` or
  `10.0.0.0/33` (`BadMask`, `classify_str_error_iff`).
- Null, booleans and integers are read as the address with their number: an
  integer from 0 below 2^32, and every boolean, restricts a rule to IPv4, an
  integer from 2^32 below 2^128 to IPv6, any other to nothing (`numberFamily`).
  `expandObjectsWith_plainScalars` is the step of expansion value by value
  (`objectStep`): each such value is substituted by its text and the rule is
  then restricted to its family, or dropped when marked for the other one.
- `expandObjectsWith_fault_source`: expansion raises only when nesting runs
  out, when a name that a text it meets refers to is not defined, or when a
  value raises as it is read as a network, which a value other than a tuple
  does only as a `BadMask` text (`FaultSource`, over the texts `Meets` gives).
-/

namespace Firewall
namespace Address

/-- An address of the family, then `/` and a mask that either is no mask of the
family or leaves bits of the address set below the prefix it gives. -/
def BadMask (fam : Family) (t : String) : Prop :=
  ∃ a m n z, fields '/' t = [a, m] ∧ addressOf fam (.str a) = some (n, z) ∧
    ∀ p, maskPrefix fam m = .ok p → n % 2 ^ (fam.width - p) ≠ 0

/-- A text with one `/` splits there into an address and a mask. -/
theorem networkParts_str_masked {t a m : String} (h : fields '/' t = [a, m]) :
    networkParts (.str t) = .ok (some (.str a, some (.str m))) := by
  simp [networkParts, Value.unfold, h]

theorem networkParts_int (n : Int) : networkParts (.int n) = .ok (some (.int n, none)) := rfl

theorem networkParts_bool (b : Bool) : networkParts (.bool b) = .ok (some (.bool b, none)) := rfl

/-- Null is read by its text. -/
theorem networkParts_null : networkParts .null = .ok (some (.str "None", none)) := rfl

/-- Only a tuple of no item or of more than two fails to split. -/
theorem networkParts_error {v : Value} {e : Fault} (h : networkParts v = .error e) :
    ∃ xs, v.unfold = .tuple xs := by
  unfold networkParts at h
  split at h
  · cases h
  · cases h
  · cases h
  · exact ⟨[], ‹_›⟩
  · cases h
  · cases h
  · exact ⟨_, ‹_›⟩
  · split at h <;> cases h

/-- A mask comes from the second item of a pair, or from the text after the `/`. -/
theorem networkParts_masked {v a m : Value} (h : networkParts v = .ok (some (a, some m))) :
    v.unfold = .tuple [a, m] ∨
      ∃ a' m', fields '/' v.text = [a', m'] ∧ a = .str a' ∧ m = .str m' := by
  unfold networkParts at h
  split at h
  · cases h
  · cases h
  · cases h
  · cases h
  · cases h
  · rename_i a' m' hv
    simp only [Except.ok.injEq, Option.some.injEq, Prod.mk.injEq] at h
    obtain ⟨rfl, rfl⟩ := h
    exact .inl hv
  · cases h
  · split at h
    · cases h
    · rename_i a' m' hf
      simp only [Except.ok.injEq, Option.some.injEq, Prod.mk.injEq] at h
      obtain ⟨rfl, rfl⟩ := h
      exact .inr ⟨a', m', hf, rfl, rfl⟩
    · cases h

section Reading

variable {fam : Family}

/-- An address without a mask is a network of the family's full width, so
reading it never raises. -/
theorem classify_unmasked {v a : Value} (h : networkParts v = .ok (some (a, none))) :
    classify fam v = .ok (addressOf fam a).isSome := by
  unfold classify Network.ofValue
  rw [h]
  cases ha : addressOf fam a with
  | none => simp [ha, bind, Except.bind, pure, Except.pure, Except.map]
  | some nz => simp [ha, Nat.mod_one, bind, Except.bind, pure, Except.pure, Except.map]

theorem ofValue_unaddressed {v a : Value} {m : Option Value}
    (h : networkParts v = .ok (some (a, m))) (ha : addressOf fam a = none) :
    Network.ofValue fam v = .ok none := by
  unfold Network.ofValue
  rw [h]
  simp only [bind, Except.bind, ha]
  rfl

/-- An address with a mask is a network when the mask reads and leaves no bit
of the address below the prefix. -/
theorem ofValue_masked {v a m : Value} {n : Nat} {z : Option String}
    (h : networkParts v = .ok (some (a, some m))) (ha : addressOf fam a = some (n, z)) :
    Network.ofValue fam v = maskOfValue fam m >>= fun p =>
      if n % 2 ^ (fam.width - p) != 0 then throw (.hostBits (Network.text ⟨fam, n, z, p⟩))
      else pure (some ⟨fam, n, z, p⟩) := by
  unfold Network.ofValue
  rw [h]
  simp only [bind, Except.bind, ha]
  -- the program writes the power as `Nat.pow`, equal by definition to `^`
  rfl

/-- A value raises when read as a network only as a tuple or as a `BadMask` text. -/
theorem badMask_of_classify_error {v : Value} {f : Fault} (h : classify fam v = .error f) :
    (∃ xs, v.unfold = .tuple xs) ∨ BadMask fam v.text := by
  unfold classify at h
  cases hparts : networkParts v with
  | error e => exact .inl (networkParts_error hparts)
  | ok parts =>
    match parts, hparts with
    | none, hparts =>
      simp [Network.ofValue, hparts, bind, Except.bind, pure, Except.pure, Except.map] at h
    | some (a, none), hparts =>
      rw [← classify, classify_unmasked hparts] at h
      cases h
    | some (a, some m), hparts =>
      rcases networkParts_masked hparts with htuple | ⟨a', m', hmatch, rfl, rfl⟩
      · exact .inl ⟨_, htuple⟩
      · cases ha : addressOf fam (.str a') with
        | none => simp [ofValue_unaddressed hparts ha, Except.map] at h
        | some nz =>
          obtain ⟨n, z⟩ := nz
          refine .inr ⟨a', m', n, z, hmatch, ha, fun p hp hbits => ?_⟩
          rw [ofValue_masked hparts ha] at h
          simp [maskOfValue, hp, hbits, bind, Except.bind, pure, Except.pure, Except.map] at h

/-- Reading a text as a network raises exactly when it is a `BadMask` text. -/
theorem classify_str_error_iff {t : String} :
    (∃ f, classify fam (.str t) = .error f) ↔ BadMask fam t := by
  constructor
  · rintro ⟨f, hf⟩
    rcases badMask_of_classify_error hf with ⟨xs, htuple⟩ | hbad
    · cases htuple
    · exact hbad
  · rintro ⟨a, m, n, z, hmatch, ha, hbad⟩
    unfold classify
    rw [ofValue_masked (networkParts_str_masked hmatch) ha]
    cases hp : maskPrefix fam m with
    | error f => exact ⟨f, by simp [maskOfValue, hp, bind, Except.bind, Except.map]⟩
    | ok p =>
      exact ⟨.hostBits (Network.text ⟨fam, n, z, p⟩), by
        simp [maskOfValue, hp, hbad p hp, bind, Except.bind, throw, throwThe, MonadExceptOf.throw,
          Except.map]⟩

theorem addressOf_int (n : Int) :
    addressOf fam (.int n) =
      if n < 0 ∨ n ≥ 2 ^ fam.width then none else some (n.toNat, none) := rfl

/-- An integer is read as the address with its number, when there is one. -/
theorem classify_int (n : Int) :
    classify fam (.int n) = .ok (decide (0 ≤ n ∧ n < 2 ^ fam.width)) := by
  rw [classify_unmasked (networkParts_int n), addressOf_int]
  by_cases h : n < 0 ∨ n ≥ 2 ^ fam.width
  · rw [if_pos h]
    simp only [Option.isSome_none, Except.ok.injEq]
    rcases h with h | h
    · simp [Int.not_le.mpr h]
    · simp [Int.not_lt.mpr h]
  · rw [if_neg h]
    simp only [not_or, Int.not_lt, Int.not_le, ge_iff_le] at h
    simp [h.1, h.2]

variable (fam) in
theorem classify_int_of_mem {n : Int} (h : 0 ≤ n ∧ n < 2 ^ fam.width) :
    classify fam (.int n) = .ok true := by
  rw [classify_int, decide_eq_true h]

variable (fam) in
theorem classify_int_of_not_mem {n : Int} (h : ¬(0 ≤ n ∧ n < 2 ^ fam.width)) :
    classify fam (.int n) = .ok false := by
  rw [classify_int, decide_eq_false h]

/-- A boolean is read as the address zero or one. -/
theorem classify_bool (b : Bool) : classify fam (.bool b) = .ok true := by
  rw [classify_unmasked (networkParts_bool b)]
  rfl

/-- Null is read by its text, which is no address. -/
theorem classify_null : classify fam .null = .ok false := by
  have hnone : (addressOf fam (.str "None")).isSome = false := by
    cases fam <;> decide +kernel
  rw [classify_unmasked networkParts_null, hnone]

end Reading

/-- The family an integer or a boolean is read in, as the address with its
number: IPv4 from zero below 2^32, where both booleans fall, IPv6 from there
below 2^128; other values have none. -/
def numberFamily : Value → Option Family
  | .bool _ => some .v4
  | .int n =>
    if 0 ≤ n ∧ n < 2 ^ 32 then some .v4 else if 0 ≤ n ∧ n < 2 ^ 128 then some .v6 else none
  | _ => none

end Address

namespace Rule

open Address

/-- A rule restricted to a family: IPv4 drops a rule marked `-6` and marks one
not yet marked `-4`, IPv6 the other way round, and no family leaves the rule
as it is. -/
def restrictTo : Option Family → String → Option String
  | none, rule => some rule
  | some .v4, rule =>
    if markedV6 rule then none else some (if markedV4 rule then rule else "-4 " ++ rule)
  | some .v6, rule =>
    if markedV4 rule then none else some (if markedV6 rule then rule else "-6 " ++ rule)

/-- Null, a boolean or an integer: the scalars of a document besides texts and
doubles. -/
def plainScalar : Value → Bool
  | .null | .bool _ | .int _ => true
  | _ => false

/-- Null, booleans and integers restrict a rule as the addresses with their
numbers do. -/
theorem restrictFamily_plainScalar {v : Value} (hv : plainScalar v = true) (rule : String) :
    restrictFamily v rule = .ok (restrictTo (numberFamily v) rule) := by
  cases v with
  | null =>
    unfold restrictFamily
    rw [classify_null, classify_null]
    rfl
  | bool b =>
    unfold restrictFamily
    rw [classify_bool]
    rfl
  | int n =>
    unfold restrictFamily
    by_cases hn4 : 0 ≤ n ∧ n < 2 ^ 32
    · have hfam : numberFamily (.int n) = some .v4 := if_pos hn4
      rw [hfam, classify_int_of_mem .v4 hn4]
      rfl
    · rw [classify_int_of_not_mem .v4 hn4]
      by_cases hn6 : 0 ≤ n ∧ n < 2 ^ 128
      · have hfam : numberFamily (.int n) = some .v6 := (if_neg hn4).trans (if_pos hn6)
        rw [hfam, classify_int_of_mem .v6 hn6]
        rfl
      · have hfam : numberFamily (.int n) = none := (if_neg hn4).trans (if_neg hn6)
        rw [hfam, classify_int_of_not_mem .v6 hn6]
        rfl
  | _ => cases hv

/-- What expanding an iptables rule does with one value of its leftmost
reference: substitute its text, restrict the rule to its family, and expand
what is left with the remaining nesting. -/
def objectStep (tree : Value) (fuel : Nat) (r : Reference) (v : Value) : Run String :=
  match restrictFamily v (r.fill v.text) with
  | .error f => Run.fail f
  | .ok none => Run.ofList []
  | .ok (some t) => expandObjectsWith tree fuel .iptables t

/-- One step of expanding an iptables rule, value by value: the rule's
expansion takes each value of its leftmost reference's object in turn, and a
value that is null, a boolean or an integer is substituted by its text and
then restricts the rule to the family of the address with its number, so
that a port number restricts it to IPv4, before the rest is expanded. -/
theorem expandObjectsWith_plainScalars {tree obj : Value} {fuel : Nat} {s : String} {r : Reference}
    (hr : Reference.find? '$' s = some r) (hobj : tree.path ["objects", r.key] = .ok obj) :
    expandObjectsWith tree (fuel + 1) .iptables s = Run.feed (objectStep tree fuel r) obj.asList ∧
      ∀ v, plainScalar v = true → objectStep tree fuel r v =
        match restrictTo (numberFamily v) (r.fill v.text) with
        | none => Run.ofList []
        | some t => expandObjectsWith tree fuel .iptables t := by
  constructor
  · rw [expandObjectsWith, hr]
    simp only [hobj]
    rfl
  · intro v hv
    rw [objectStep, restrictFamily_plainScalar hv]
    cases restrictTo (numberFamily v) (r.fill v.text) <;> rfl

/-- An object holding the port number 22. -/
def portObjects : Value := .dict [(.str "objects", .dict [(.str "ssh", .int 22)])]

theorem portRule_restricted_step :
    Reference.find? '$' "--dport ${ssh}" = some ⟨"--dport ".toList, "ssh".toList, []⟩ ∧
      portObjects.path ["objects", String.ofList "ssh".toList] = .ok (.int 22) ∧
      plainScalar (.int 22) = true ∧
      expandObjectsWith portObjects (999 + 1) .iptables "--dport ${ssh}" =
        Run.ofList ["-4 --dport 22"] := by
  have hr :
      Reference.find? '$' "--dport ${ssh}" = some ⟨"--dport ".toList, "ssh".toList, []⟩ := by
    decide +kernel
  have hobj : portObjects.path ["objects", String.ofList "ssh".toList] = .ok (.int 22) := rfl
  obtain ⟨hrun, hstep⟩ := expandObjectsWith_plainScalars hr hobj
  have hport : plainScalar (.int 22) = true := rfl
  refine ⟨hr, hobj, hport, ?_⟩
  have hvalues : (Value.int 22).asList = [.int 22] := rfl
  rw [hrun, hvalues, Run.feed, hstep _ hport]
  decide +kernel

/-- A port number restricts a rule to IPv4: the rule gains `-4`, and a rule
marked `-6` is dropped. -/
theorem portNumber_restricts_rules :
    expandObjects portObjects .iptables (.str "--dport ${ssh}") = Run.ofList ["-4 --dport 22"] ∧
      expandObjects portObjects .iptables (.str "-6 --dport ${ssh}") = Run.ofList [] := by
  decide +kernel

/-- Restricting a rule to a value's family raises only as reading the value does. -/
theorem classify_error_of_restrictFamily {v : Value} {rule : String} {f : Fault}
    (h : restrictFamily v rule = .error f) : ∃ fam, classify fam v = .error f := by
  unfold restrictFamily at h
  cases h4 : classify .v4 v with
  | error e =>
    simp only [h4, bind, Except.bind] at h
    exact ⟨.v4, by rw [h4, Except.error.inj h]⟩
  | ok b4 =>
    cases b4 with
    | true => simp [h4, bind, Except.bind, pure, Except.pure] at h
    | false =>
      cases h6 : classify .v6 v with
      | error e =>
        simp only [h4, h6, bind, Except.bind, Bool.false_eq_true, if_false] at h
        exact ⟨.v6, by rw [h6, Except.error.inj h]⟩
      | ok b6 => cases b6 <;> simp [h4, h6, bind, Except.bind, pure, Except.pure] at h

/-- The texts that expanding `s` meets: `s` itself and, for the leftmost
reference of a text met and each value of its object, the text with the value
filled in, as it stands (for ipset entries) or restricted to the value's family
(for iptables rules). -/
inductive Meets (tree : Value) : String → String → Prop
  | refl (s : String) : Meets tree s s
  | fill {s t : String} {r : Reference} {obj v : Value} :
      Reference.find? '$' s = some r → tree.path ["objects", r.key] = .ok obj →
      v ∈ obj.asList → Meets tree (r.fill v.text) t → Meets tree s t
  | restrict {s t u : String} {r : Reference} {obj v : Value} :
      Reference.find? '$' s = some r → tree.path ["objects", r.key] = .ok obj →
      v ∈ obj.asList → restrictFamily v (r.fill v.text) = .ok (some u) → Meets tree u t →
      Meets tree s t

/-- Where a fault of expanding `s` comes from: nesting that runs out, a name
that a text met refers to and that is not defined, or a value of a name so
referred to that raises when read as a network, which is a tuple or a
`BadMask` text. -/
def FaultSource (tree : Value) (s : String) (f : Fault) : Prop :=
  f = .recursion ∨
    (∃ t r, Meets tree s t ∧ Reference.find? '$' t = some r ∧
      tree.path ["objects", r.key] = .error f) ∨
    ∃ t r obj v fam, Meets tree s t ∧ Reference.find? '$' t = some r ∧
      tree.path ["objects", r.key] = .ok obj ∧ v ∈ obj.asList ∧ classify fam v = .error f ∧
      ((∃ xs, v.unfold = .tuple xs) ∨ BadMask fam v.text)

/-- A source of a fault for a text that `s` leads to is one for `s`. -/
theorem FaultSource.mono {tree : Value} {s u : String} {f : Fault}
    (hmeets : ∀ t, Meets tree u t → Meets tree s t) :
    FaultSource tree u f → FaultSource tree s f := by
  rintro (hrec | ⟨t, r, ht, hr, hp⟩ | ⟨t, r, obj, v, fam, ht, hr, hp, hv, hc, hbad⟩)
  · exact .inl hrec
  · exact .inr (.inl ⟨t, r, hmeets t ht, hr, hp⟩)
  · exact .inr (.inr ⟨t, r, obj, v, fam, hmeets t ht, hr, hp, hv, hc, hbad⟩)

/-- Expansion raises only when nesting runs out, when a name that a text it
meets refers to is not defined, or when a value of such a name raises as it is
read as a network: a tuple, or a text that is an address with a bad mask or
host bits.  So for a rule whose names are all defined, only such values and
nesting make it raise. -/
theorem expandObjectsWith_fault_source {tree : Value} :
    ∀ {fuel : Nat} {kind : Kind} {s : String} {f : Fault},
      (expandObjectsWith tree fuel kind s).fault = some f → FaultSource tree s f
  | 0, _, _, _, h => by
    simp only [expandObjectsWith, Run.fail, Option.some.injEq] at h
    exact .inl h.symm
  | fuel + 1, kind, s, f, h => by
    unfold expandObjectsWith at h
    cases hr : Reference.find? '$' s with
    | none => simp [hr, Run.ofList] at h
    | some r =>
      cases hobj : tree.path ["objects", r.key] with
      | error e =>
        simp only [hr, hobj, Run.fail, Option.some.injEq] at h
        exact .inr (.inl ⟨s, r, .refl s, hr, h ▸ hobj⟩)
      | ok obj =>
        simp only [hr, hobj] at h
        -- the fault is that of one value, met at this step or further down
        obtain ⟨v, hv, hfault⟩ := Run.feed_fault h
        cases kind with
        | other =>
          exact (expandObjectsWith_fault_source hfault).mono fun t ht => .fill hr hobj hv ht
        | iptables =>
          cases hres : restrictFamily v (r.fill v.text) with
          | error e =>
            simp only [hres, Run.fail, Option.some.injEq] at hfault
            subst hfault
            obtain ⟨fam, hfam⟩ := classify_error_of_restrictFamily hres
            exact .inr (.inr ⟨s, r, obj, v, fam, .refl s, hr, hobj, hv, hfam,
              badMask_of_classify_error hfam⟩)
          | ok t =>
            cases t with
            | none => simp [hres, Run.ofList] at hfault
            | some u =>
              have hdeeper : (expandObjectsWith tree fuel .iptables u).fault = some f := by
                simpa [hres] using hfault
              exact (expandObjectsWith_fault_source hdeeper).mono fun t ht =>
                .restrict hr hobj hv hres ht

/-- An object holding an IPv4 network written with bits set below its prefix. -/
def hostBitsObjects : Value := .dict [(.str "objects", .dict [(.str "n", .str "10.0.0.1/24")])]

theorem hostBitsRule_fault :
    (expandObjectsWith hostBitsObjects 1000 .iptables "-s ${n}").fault =
        some (.hostBits "10.0.0.1/24") ∧
      FaultSource hostBitsObjects "-s ${n}" (.hostBits "10.0.0.1/24") := by
  have h : (expandObjectsWith hostBitsObjects 1000 .iptables "-s ${n}").fault =
      some (.hostBits "10.0.0.1/24") := by
    decide +kernel
  exact ⟨h, expandObjectsWith_fault_source h⟩

/-- A network with host bits makes the expansion of a rule that uses it raise,
although every name the rule refers to is defined. -/
theorem hostBitsRule_raises :
    expandObjects hostBitsObjects .iptables (.str "-s ${n}") =
      Run.fail (.hostBits "10.0.0.1/24") := by
  decide +kernel

end Rule
end Firewall
