import Heightfield.Number.Scalar
/-!
# The table of Viridis

Viridis is no interpolation between a few colours: its 256 entries are tabulated.  An entry
`rrrrggggbbbb` holds the three channels in units of a ten-thousandth.
-/

namespace Heightfield

def viridisEntries : Array Nat := #[
    267000493294, 268500963354, 269901463414, 271301993473, 272602563531, 273803153589, 275003783645, 276004423702,
    277005033757, 277905633812, 278806213866, 279606783919, 280307343972, 280907894023, 281408434074, 281908974124,
    282309504173, 282710024222, 282910544269, 283111064316, 283211574361, 283212084406, 283212584450, 283113094492,
    282913594534, 282614094575, 282314594615, 281915094654, 281415584692, 280916084729, 280316574765, 279617064800,
    278817554834, 278018044867, 277118524899, 276219014930, 275219494960, 274119974989, 273020455017, 271820935044,
    270621415071, 269321885096, 268022355120, 266622835143, 265123305166, 263723765188, 262124235208, 260624695228,
    259025155247, 257325615266, 255626075283, 253926535300, 252226985316, 250427435331, 248627885346, 246828325359,
    245028775373, 243129215385, 241229655397, 239330095408, 237430525419, 235530955429, 233631385439, 231731815448,
    229732245457, 227832665465, 225933085473, 223933505481, 222033925488, 220134335494, 218134745500, 216235155506,
    214335565512, 212435975517, 210536375522, 208636785527, 206837185531, 204937575535, 203137975539, 201238375543,
    199438765546, 197639155550, 195939545553, 194139935556, 192440325558, 190640715561, 188941095563, 187241475565,
    185641865568, 183942245569, 182342625571, 180643005573, 179043385574, 177443755576, 175844135577, 174344505578,
    172744885579, 171245255580, 169645635580, 168146005581, 166646375581, 165146745581, 163647115581, 162147485581,
    160747855581, 159248225581, 157748595580, 156348965579, 154849335578, 153449705577, 151950075576, 150550445574,
    149050815572, 147651175570, 146251545568, 144851915566, 143352285563, 141952655560, 140553015557, 139153385553,
    137853755549, 136454125545, 135154495540, 133754855535, 132455225530, 131255595525, 129955965519, 128756335512,
    127656695506, 126557065498, 125457435491, 124457805483, 123558175474, 122658545466, 121858915456, 121159275446,
    120659645436, 120160015425, 119760385414, 119560755402, 119461115390, 119561485377, 119761855363, 120162225349,
    120662585335, 121462955320, 122363325304, 123463685288, 124864055271, 126364415253, 128164775235, 130165145216,
    132365505197, 134765865176, 137366235156, 140266595134, 143366955112, 146667305089, 150167665066, 153968025042,
    157968385017, 162068734991, 166469094965, 170969444938, 175769794910, 180770144882, 185870494853, 191170844823,
    196671184792, 202271534761, 208071874729, 214072214696, 220172554662, 226472894628, 232873224593, 239473564557,
    246173894520, 252974224483, 259974554445, 266974884406, 274175204366, 281575524326, 288975844284, 296576164242,
    304176474199, 311976784156, 319877094112, 327877404066, 335977704020, 344178003974, 352478303926, 360778603878,
    369278893829, 377879183779, 386479463729, 395279753678, 404080033626, 412980303573, 421980583519, 431080853465,
    440181113410, 449481383354, 458781643297, 468181893240, 477582143182, 487082393123, 496682643064, 506382883004,
    516083122943, 525883352881, 535683582819, 545583802756, 555584032693, 565584242629, 575684462564, 585784672499,
    595884872433, 606085072367, 616385272301, 626685462234, 636985652166, 647385842099, 657686022031, 668186201963,
    678586371895, 688986541827, 699486711760, 709986881693, 720487041626, 730987191560, 741487341496, 751987501432,
    762487641371, 772987791311, 783387931254, 793888071200, 804288201150, 814688341103, 824988471062, 835388601026,
    845688730997, 855888860975, 866088990960, 876289110952, 886389240954, 896389360963, 906389490981, 916289611007,
    926189731041, 935989861081, 945689981128, 955390111181, 964990231239, 974490361302, 983990491369, 993290621439]

set_option maxRecDepth 4000 in
theorem size_viridisEntries : viridisEntries.size = 256 := by decide

end Heightfield
