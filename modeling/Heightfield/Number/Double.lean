import Heightfield.Number.Elementary
import Heightfield.Number.ComplexDouble
import Heightfield.Number.Gamma
/-!
# The elementary functions on doubles
-/

namespace Heightfield

def applyDouble : Elementary → Float → Float
  | .sin => Float.sin
  | .cos => Float.cos
  | .tan => Float.tan
  | .asin => Float.asin
  | .acos => Float.acos
  | .atan => Float.atan
  | .sinh => Float.sinh
  | .cosh => Float.cosh
  | .tanh => Float.tanh
  | .asinh => Float.asinh
  | .acosh => Float.acosh
  | .atanh => Float.atanh
  | .exp => Float.exp
  | .log => Float.log
  | .log10 => Float.log10
  | .log2 => Float.log2
  | .sqrt => Float.sqrt
  | .gamma => Gamma.real

def applyComplexDouble : Elementary → Complex Float → Complex Float
  | .sin => ComplexDouble.sin
  | .cos => ComplexDouble.cos
  | .tan => ComplexDouble.tan
  | .asin => ComplexDouble.asin
  | .acos => ComplexDouble.acos
  | .atan => ComplexDouble.atan
  | .sinh => ComplexDouble.sinh
  | .cosh => ComplexDouble.cosh
  | .tanh => ComplexDouble.tanh
  | .asinh => ComplexDouble.asinh
  | .acosh => ComplexDouble.acosh
  | .atanh => ComplexDouble.atanh
  | .exp => ComplexDouble.exp
  | .log => ComplexDouble.log
  | .log10 => ComplexDouble.scaledLog 0.4342944819032518
  | .log2 => ComplexDouble.scaledLog 1.4426950408889634
  | .sqrt => ComplexDouble.sqrt
  | .gamma => fun z => let r := Gamma.complex (z.re, z.im); ⟨r.1, r.2⟩

instance : Analytic Float where
  apply := applyDouble
  applyComplex := applyComplexDouble
  cbrt := Float.cbrt
  pow := Float.pow
  powComplex := ComplexDouble.pow
  hypot := ComplexDouble.hypot
  atan2 := Float.atan2
  pi := 3.141592653589793
  euler := 2.718281828459045

end Heightfield
