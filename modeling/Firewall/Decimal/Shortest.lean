/-!
# Shortest decimal digits of a binary64 value

A finite double `m * 2^q` stands for an interval of reals: from halfway to its
lower neighbour to halfway to its upper neighbour, both ends included exactly
when `m` is even (reading rounds ties to even).  The shortest decimal that lies
in that interval reads back as the same double; of two such decimals of equal
length the nearer one is chosen, and an exact tie goes to the even digit.

The search is the specification turned into a loop: for `n = 1, 2, ...` digits
it tests the two neighbours of the value on the grid `10^(k-n)`, where `10^k`
is the least power of ten above the value.  All arithmetic is exact, on `Nat`.

Main definitions:

- `Binary.ofBits`: decode the bits of a finite value.
- `Binary.readsBack`: the interval test.
- `Binary.shortest`: the selected digits and exponent.
-/

namespace Firewall
namespace Decimal

/-- A finite non-negative binary64 value, `m * 2^q`. -/
structure Binary where
  m : Nat
  q : Int
  /-- the gap to the value below is half the gap to the value above -/
  narrowBelow : Bool
deriving Repr, DecidableEq

/-- A decimal `digits * 10^exp`. -/
structure Dec where
  digits : Nat
  exp : Int
deriving Repr, DecidableEq

/-- The magnitude of a finite value: NaN and the infinities are tested for first. -/
def Binary.ofBits (b : UInt64) : Binary :=
  let e := ((b >>> 52) &&& 0x7FF).toNat
  let f := (b &&& 0xFFFFFFFFFFFFF).toNat
  if e == 0 then ⟨f, -1074, false⟩ else ⟨Nat.pow 2 52 + f, (e : Int) - 1075, f == 0 && e > 1⟩

/-- Compare `a * 10^i` with `n * 2^j`, exactly. -/
def cmpScaled (a : Nat) (i : Int) (n : Nat) (j : Int) : Ordering :=
  compare (a * Nat.pow 10 i.toNat * Nat.pow 2 (-j).toNat) (n * Nat.pow 2 j.toNat * Nat.pow 10 (-i).toNat)

/-- The decimal lies among the reals that round to the value (ties to even). -/
def Binary.readsBack (x : Binary) (d : Dec) : Bool :=
  let lo := if x.narrowBelow then 4 * x.m - 1 else 4 * x.m - 2
  let hi := 4 * x.m + 2
  let incl := x.m % 2 == 0
  let cl := cmpScaled d.digits d.exp lo (x.q - 2)
  let ch := cmpScaled d.digits d.exp hi (x.q - 2)
  (cl == .gt || (incl && cl == .eq)) && (ch == .lt || (incl && ch == .eq))

/-- Number of decimal digits of a natural number (one for zero). -/
def digitCount (n : Nat) : Nat :=
  (Nat.toDigits 10 n).length

/-- The least `k` with `m * 2^q < 10^k`, for `m > 0`.  The estimate from the
digit counts of numerator and denominator is off by at most one step. -/
def Binary.scale (x : Binary) : Int :=
  let num := x.m * Nat.pow 2 x.q.toNat
  let den := Nat.pow 2 (-x.q).toNat
  let est : Int := (digitCount num : Int) - (digitCount den : Int)
  -- num / den < 10^k  iff  num * 10^(-k) < den * 10^k, split by sign of k
  let below (k : Int) : Bool := num * Nat.pow 10 (-k).toNat < den * Nat.pow 10 k.toNat
  if below (est - 1) then est - 1 else if below est then est else est + 1

/-- `⌊ m * 2^q / 10^e ⌋`, exactly. -/
def Binary.floorOn (x : Binary) (e : Int) : Nat :=
  (x.m * Nat.pow 2 x.q.toNat * Nat.pow 10 (-e).toNat) / (Nat.pow 2 (-x.q).toNat * Nat.pow 10 e.toNat)

/-- Twice the value compared with `(a + b) * 10^e`: which of two grid points is nearer. -/
def Binary.cmpMid (x : Binary) (a b : Nat) (e : Int) : Ordering :=
  compare (2 * x.m * Nat.pow 2 x.q.toNat * Nat.pow 10 (-e).toNat) ((a + b) * Nat.pow 2 (-x.q).toNat * Nat.pow 10 e.toNat)

/-- Remove trailing zeros of the digits into the exponent. -/
def Dec.normalize (d : Dec) : Dec :=
  go (digitCount d.digits) d
where
  go : Nat → Dec → Dec
    | 0, d => d
    | fuel + 1, d =>
      if d.digits != 0 && d.digits % 10 == 0 then go fuel ⟨d.digits / 10, d.exp + 1⟩ else d

/-- The candidate on the grid `10^e` for a value, if one of its two neighbours
there reads back: of two, the nearer; on a tie, the even one. -/
def Binary.onGrid (x : Binary) (e : Int) : Option Dec :=
  let t := x.floorOn e
  let lo : Dec := ⟨t, e⟩
  let hi : Dec := ⟨t + 1, e⟩
  match x.readsBack lo, x.readsBack hi with
  | true, true =>
    match x.cmpMid t (t + 1) e with
    | .lt => some lo
    | .gt => some hi
    | .eq => some (if t % 2 == 0 then lo else hi)
  | true, false => some lo
  | false, true => some hi
  | false, false => none

/-- The exact decimal value of `m * 2^q`, the fallback of the search. -/
def Binary.exact (x : Binary) : Dec :=
  if x.q ≥ 0 then ⟨x.m * Nat.pow 2 x.q.toNat, 0⟩
  else ⟨x.m * Nat.pow 5 (-x.q).toNat, x.q⟩

/-- The shortest decimal that reads back as the value, with trailing zeros
removed; zero is `0 * 10^0`. -/
def Binary.shortest (x : Binary) : Dec :=
  if x.m = 0 then ⟨0, 0⟩ else
  let k := x.scale
  let rec search : Nat → Nat → Option Dec
    | 0, _ => none
    | fuel + 1, n =>
      match x.onGrid (k - n) with
      | some d => some d
      | none => search fuel (n + 1)
  ((search 17 1).getD x.exact).normalize

end Decimal
end Firewall
