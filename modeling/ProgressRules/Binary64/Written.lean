import ProgressRules.Binary64.Shortest
import ProgressRules.Text.Scan

/-! The written forms of a binary64 number: the shortest numeral, which always shows a point
or an exponent, and the plain form, which writes an integer by its digits alone. -/

namespace ProgressRules

namespace Magnitude

/-- Digits `d₁d₂…` and a place `p` stand for `0.d₁d₂… * 10 ^ p`. -/
def digitsAndPlace (m : Magnitude) : Text × Int :=
  let shortest := m.shortest
  let text := Text.ofNat shortest.1
  (text, shortest.2 - 324 + text.length)

def exponentText (exponent : Int) : Text :=
  let digits := Text.ofNat exponent.natAbs
  (if exponent < 0 then '-' else '+') :: (if digits.length < 2 then '0' :: digits else digits)

/-- Positional from 10^-4 up to 10^16, with an exponent elsewhere. -/
def layOut (digits : Text) (place : Int) : Text :=
  if -4 < place && place ≤ 16 then
    if place ≤ 0 then
      '0' :: '.' :: List.replicate (-place).toNat '0' ++ digits
    else if digits.length ≤ place.toNat then
      digits ++ List.replicate (place.toNat - digits.length) '0' ++ ['.', '0']
    else
      digits.take place.toNat ++ '.' :: digits.drop place.toNat
  else
    match digits with
    | [d] => d :: 'e' :: exponentText (place - 1)
    | d :: more => d :: '.' :: more ++ 'e' :: exponentText (place - 1)
    | [] => []

def text (m : Magnitude) : Text :=
  if m.units = 0 then ['0', '.', '0']
  else layOut m.digitsAndPlace.1 m.digitsAndPlace.2

def isInteger (m : Magnitude) : Bool := m.units % unitsPerOne == 0

def floor (m : Magnitude) : Nat := m.units / unitsPerOne

end Magnitude

namespace Binary64

def signed (negative : Bool) (text : Text) : Text := if negative then '-' :: text else text

def text : Binary64 → Text
  | .finite negative m => signed negative m.text
  | .infinite negative => signed negative "inf".toList
  | .nan => "nan".toList

/-- An integer is written by its exact digits, and a zero without a sign. -/
def plainText : Binary64 → Text
  | .finite negative m =>
    if m.units = 0 then ['0']
    else if m.isInteger then signed negative (Text.ofNat m.floor)
    else signed negative m.text
  | x => x.text

end Binary64

end ProgressRules
