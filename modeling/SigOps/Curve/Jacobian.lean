import SigOps.Curve.Secp256k1

namespace SigOps.Curve

-- Points in weighted projective coordinates, which add without a division. A triple with z ≠ 0
-- stands for the point (x / z², y / z³) and a triple with z = 0 for the point at infinity.
structure Jacobian where
  x : Coordinate
  y : Coordinate
  z : Coordinate
deriving DecidableEq

namespace Jacobian

def infinity : Jacobian := ⟨1, 1, 0⟩

def ofAffine (x y : Coordinate) : Jacobian := ⟨x, y, 1⟩

def generator : Jacobian := ofAffine generatorX generatorY

-- The tangent at `point`. A point with y = 0 is its own opposite and gives z = 0.
def double (point : Jacobian) : Jacobian :=
  let square := point.y * point.y
  let chord := 4 * point.x * square
  let slope := 3 * point.x * point.x
  let x := slope * slope - 2 * chord
  ⟨x, slope * (chord - x) - 8 * square * square, 2 * point.y * point.z⟩

-- The chord through two points, or the tangent when they agree. Opposite points cancel.
def add (left right : Jacobian) : Jacobian :=
  if left.z = 0 then right
  else if right.z = 0 then left
  else
    let leftSquare := left.z * left.z
    let rightSquare := right.z * right.z
    let leftX := left.x * rightSquare
    let rightX := right.x * leftSquare
    let leftY := left.y * right.z * rightSquare
    let rightY := right.y * left.z * leftSquare
    if leftX = rightX then
      if leftY = rightY then left.double else infinity
    else
      let run := rightX - leftX
      let rise := rightY - leftY
      let runSquare := run * run
      let chord := leftX * runSquare
      let x := rise * rise - run * runSquare - 2 * chord
      ⟨x, rise * (chord - x) - leftY * run * runSquare, left.z * right.z * run⟩

def multiple (scalar : Scalar) (point : Jacobian) : Jacobian :=
  ladder infinity double (add · point) width scalar.val

-- The coordinates of a finite point.
def toAffine? (point : Jacobian) : Option (Coordinate × Coordinate) :=
  if point.z = 0 then none
  else
    let scale := inverse point.z
    some (point.x * scale * scale, point.y * scale * scale * scale)

end Jacobian

end SigOps.Curve
