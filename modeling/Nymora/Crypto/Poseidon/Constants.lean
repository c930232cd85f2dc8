import Nymora.Crypto.Field

namespace Nymora.Crypto.Poseidon

def ROUNDS : Nat := 68

-- One row of the width-3 instance. Each constant of the source is four little-endian limbs;
-- here the limbs are joined, the most significant first.
structure Row where
  entry0 : F
  entry1 : F
  entry2 : F
deriving DecidableEq

def MDS0 : Row := ⟨
  0x1b8114c381b922fd5d6d241210e2d8a68ad5744053ba9e776118de4107b51ace,
  0x3df32e4cc4cb2ed20e5d21899cf5331775990ccaec4c09b4e3717213fcc0d763,
  0x3f05c4df7a6664dabe258779bf548eb4007f33601591080b3ecd34aea0e1edc1⟩

def MDS1 : Row := ⟨
  0x404d21073985d14e432a4ad76d3fae06ca74314b950fe7b1d7f501cd31a8b374,
  0x0b2cc8704264c6bd81bc620e9e524d4b73e9b2317679422ff7fa1603955649f1,
  0x0fdf664da55059fa5a9388c641035d496d0bb519834348b4e2a8fc8c637f1a1f⟩

def MDS2 : Row := ⟨
  0x5e1d3dbecda6214343e24a47f45c5d033197ad01b65a730af95dc57e90c49140,
  0x6bd72f9cfc53af9d931896e77ea5c61244cb6d5fae8954f37dc7b9002f5aa78a,
  0x4997c5aa3a5fa07bcaf880a9054bef831effbd9cd58e46d9bb4fb88ef99de0db⟩

def ROUND_CONSTANTS : List Row := [
  ⟨0x0a59176c702e80bde6789030868b74da429eb1495835f5d0118a2e2f65548257,
    0x1f04ee09b99d7d10cd8e8a5a5bab4bf2d304dbbf24127d23933a2a02fe51cfbd,
    0x053b0aee6a9e41f529188d639e301a4c9f1a2e780aa10c20af5280f50adc5473⟩,
  ⟨0x607fc613870d7f56e456a0c7f190fb8167eaba96e2391951aef7d48879bf3f9c,
    0x65934d47f091e18113f99939a0e34559a697ec84b5de486eb5a4cb05daa7f2fb,
    0x18e896fa20c621a98efaf9a4eed147894fec13728d5acad5a853bcd1196b63f9⟩,
  ⟨0x69fa9afcf3c3ad0017c4ed67263148c9e47a7c26814796d2e336be30a84fd950,
    0x7176d3b8287939b95c976e456bfb407b1247d3bcf972cbd78e58cfb641a9262d,
    0x036d041c5ebefe99ffc05e3b37ba7f8b41f202d7ef0b284a63e66973ddc39a01⟩,
  ⟨0x5d0542cc31de7433013b15aeb4c20921505716329ffbe5a2732d042edf0a816f,
    0x2665fb26ccc68131b804665d8913be00f2fa23b37fdeb25f42f909f2538a8c12,
    0x3ce3705a685c5889e7bb046e5c800ecb69773c31bb4d95af9d083d3c6f9a8ba7⟩,
  ⟨0x4ec6ec86094aa88efa9125e2d77416e3d4fdb7fd68c02865af1e7963d544963d,
    0x04c0b32aaec6f011dcceadee1debedf9a2abda9e84060420c2fddb51c3d7fb35,
    0x16275c9229fa151e6a220541769c55e1024d20b043ff21f84f78b4997d6afe55⟩,
  ⟨0x150813e5512f10efaf94baf57d0f8b00b4f7a93140b437b8c10327cca38b8745,
    0x5f066147b29db1e24363df569ee360ec36923304dd5df570fefd9fdbef6343c2,
    0x115ae3a31ce245ba3fcf9218725a5b20c4fb015de0ef9f5d8f7a2080716660d5⟩,
  ⟨0x3276de65c29a45f3038950c0fd5d79e3937bb2dbf2f93d69e5e14b22a414394e,
    0x4c5049800cebeb0b35f477af6855cca6133ee041cc42b62d92f8ad5ad2b548bf,
    0x252e1b549c72eaf34196c8aec67a4bba2d0f8b3d41c93057b21cdb491fae2b78⟩,
  ⟨0x5a0a0f27cfbcfe7f34695560858c35d6be3f87e74ae1c0a0edadc78379d22a7c,
    0x5aef41fe39ffbd0bfd334689e12aebf20ac198dcb30364d8b551ed86d4e01199,
    0x2ff7ee574d7a9680d4cd5d839e7fce4fbdc6693387a4566a538aeb0616da4db9⟩,
  ⟨0x599530bbbca9c7913fdedf2e426982ce05bafbb61e57b5fe4252d5a560fb7c44,
    0x594afd99c63e07410bb9a8bc21a256d4a88df20cee4568860436dd18bc6b3086,
    0x561bc2bc056a1ddbab6acf327ffcb56ac7c9b266eeb91eb48cbcbe421122bf2c⟩,
  ⟨0x44b0f629fee30f4a697371a15b9f311095f890288588a97b185053e39b03e4c0,
    0x6666bc362a7600c81b78e5d597624815e90813d942f6e4829b13ecce3f00a744,
    0x39491594d7ad80492debb00212d21c6ad3fa35f5bfe28c4a2020eb7365b77289⟩,
  ⟨0x687abaf484907604abebc0ead0263afa38ab73133269c2a856383a59fba6582c,
    0x31a920a0d66d0d377a294f24d0ffb8863773b560616a25cc6a4e6b1e7b1516ce,
    0x43d0f81a73aadd11c628f5fc5c7b67b4f844de5b3cedfedf3103a411a5884a28⟩,
  ⟨0x3eb3c82baba6cffa1871a5a4ed874d585c457a53f502e257289dd9440136b819,
    0x33196eded0bad8749bed66b6b26f69c8d75e5a257ba153ae797c6d0b50577e09,
    0x43d26aaf7d308dd37bc0731ab785e50e7a183c0ae3c6c806cad29b7a3a549811⟩,
  ⟨0x53cad4124a934629053d44d34d5f0a8c25e54c55c39f4333c2f6f15337eda387,
    0x3eafd6b777c1020af707e4f26f512bb4cc885e01e325f8c5793e1f4cd575f356,
    0x5320202ec4306a0e195bafc2e7b8e3b0669389e8ec353453b7be9040ab9f0930⟩,
  ⟨0x587b91df800f3b96b03d4e4aa99d28d6a984e31926da934d0888ad8e0d0b26b0,
    0x2bfccc7eb78758470367bba616b6f15e2553aa69e1650b001bdb88d1f3f98f82,
    0x1422f2e0c54874cf6d17b675d5ab9c20db3ce9b7d78e7f5ee12dbb3f43819d4a⟩,
  ⟨0x28fd84a2ea3a1a2f063d9fcf254042dd7183fc00c7e603cbf7152a0eb0b49c4c,
    0x28bfcd29b81c11eb13daf41fff095dfe391acf13f9d2133c238125d544114b57,
    0x5586c4c0ed8eb5ea35038bab8fa67760c98826b5090503fdcc54df70f7abff3f⟩,
  ⟨0x1209367f03ec621673155b2c65e8f34387425d23bf73e9edfa498415a68bab26,
    0x22356b2d3215f6d37dee00fd7eb23b5e7b3e8a417376bef1df790964b607b733,
    0x6c163cb4eb4d8c5fc4808135d3da4a6a09c8c0c1f2684a7f3befb040fd226672⟩,
  ⟨0x4dc3c04e25fd48f7bd3e5e4c78b495a46a6c81f295164f5d6759a09c9e48c33a,
    0x590d9df429eb3511a7196e06f669ba8836651145e9bcbaf2ada0faf9dd9ae7fb,
    0x2ff2936810a3df287b47055486d6811d13d1ff2ac6c24257b8ed94c2dbca098a⟩,
  ⟨0x5f5249a771d9e4b1c4bc95b4e2ad56e740b52f60797e3e32d178be886991fa0c,
    0x67f78e07cf6ebbee0ec4e3167db3da0e2d988d1b18e9bb54e1ba7cc34e02fb27,
    0x2b9ea3bd9788c6aa63a16b72d95e2b0061f9be1c5583d9fea0b4e9fb1bb7a762⟩,
  ⟨0x0a1baf17cbed21ccf0415f5e01d433bbbd8f0407342a67fe4a4373ebf0ee59d2,
    0x1cbfcea2eb30561de620a26b7a5e3074f856d3c90b04ee14784962efb0de7977,
    0x39c9cb51d25806804afef26848cdce06e7fc90a225c1ce9fc86fd84b8a51045f⟩,
  ⟨0x424d5e34e4c177e2899a7c2c2e7ef0432165dadca284ac55c0bfcb7288a4d9e9,
    0x3387e8c65f283718d2ba7618e01144293dd96b9fafd350bad7923e77a03c082c,
    0x6526f1247e745f8003b2121d350dd4c450bf20b7a3bfd8e627e1fd2a26c6e775⟩,
  ⟨0x22c7394ddf7126e54b7bfbefc8e99ebb18d160d0faf5cbbc5f219a4281d69dd3,
    0x2ef6ac9be994b37b69b78b0accae10921403b73366381dcb4cfd81fe2ae754a1,
    0x4be6a5c7d2f3dd4484247e7fb84e11547fd8222c3e3bed2502693c4c3175d977⟩,
  ⟨0x273aca31807ed5dc4b5bc325e153609ce7e3e070e6bb88fa29185e69288509d2,
    0x2db321cae3a1aeb323b6f5057c3a1bf9f0edcc30ab79e42ead224692567a0137,
    0x45974424f4c12e52353301a448e030ab30363687091184b970991fb1a95a88cf⟩,
  ⟨0x4dbc8f3094c0b370bfe58c8e4eb3973928d75a683adc61b364f1399d2ebe30c8,
    0x1b1c10f0e13f3c0f91a7410e1926b577905da077fb2bf95dc4ba12cc2eb5c170,
    0x1abba6997ed71e4e369be5d60ead765e73a1056ddaac586b160cab9bf172c001⟩,
  ⟨0x3ffa9ffce044d6ed784f66e27846140a5e406373b0702df67cec7e37a606146b,
    0x172d1efbd333e2e3f2ba11f51954b80f20681c9873e8a6bbfb64a2cd7cde1f3c,
    0x2544491582a91b8031491dedbaaf880b8e249c510f305766bd9c09b893d26e7e⟩,
  ⟨0x598ea1d2111de9b952a00a5ce7291a5cf39e54b1ce603d0f8134aa241672ba80,
    0x30d01564a8f6e2c8c18f31a9956bd45fab4b4cb938ed769eb32f3aef037d58e5,
    0x58e0de1ffa9f39d54f9cc5e844bb2af3c16d26ce4cd2f348076ca06f98c93ef9⟩,
  ⟨0x45b892043e1e1258e264673ea5fcf9ff49d8570c351d6cf8a488fe7f7f058bab,
    0x2b80d5a4800ede3eaff5d3fecc451b7320d22d5a211e162cac90de860b794521,
    0x419d06202b190907411d441c46ebb46405f35e4f26e9ef7458359366dfb7da17⟩,
  ⟨0x3d0755343ed409e224e18f11b7276d17373bcf0d9b949e163ab54a62d2d82d42,
    0x53cb0d8f5428a5dcaac8dbba1b9d9558c6bb7933ee656745d5ce8fd413ed1b84,
    0x0b07c5e935d3cd60cd2e366778c3fcdab47617d63649e1b8f189c94ac782d122⟩,
  ⟨0x2e5e97fa75da2aaa046697b1dd6d31c4f97aab56f5d03db898a8f2394624e738,
    0x0a048ff94cd9e028511c620e69dcf4c1ab07290eb1e7278137f086140354cafa,
    0x1743436832d1570b5282ce32c734068b8e96693f8e3537fc556b37306cb7147c⟩,
  ⟨0x28f3ea486b86e75b3c04b8cfb889e8bb688b24f29140490b295f63951707cba9,
    0x150dbfb69d9fcdf913928401b81de81c91e61be6f4cdacd7b8431e2a7d6d2eac,
    0x29ca3439450da375a0d5de427b2213742db5e0eabd2bf735243fa1295cea4402⟩,
  ⟨0x48a1b62b76a65fcbfbc8c210d7b27bf286b6cdde0cb950da215608937a664dcb,
    0x0218eb6af24341ecd69c266e697c027b4d0ae206ec6a690aa562ce223e9f38ed,
    0x09a3b38ef1e13493507815d55883ca475124a9f82bce00ede4091ddb34f3d8bc⟩,
  ⟨0x174086a2d1896a822d659c85dacfe7f85dbad9b32a8485876d6cb7f20f63881b,
    0x23fd11b6eefbf7653e1fefb8196eaa6f1d32f285241a7e351a353ba6f85ff3cf,
    0x492818ba02401999004383ccd61a90599e5e1b7703c1cc2f4dc9831405a3333b⟩,
  ⟨0x0173b8905492a145a31885b01843abf568ea3272531b097fb2bb26a8e035e725,
    0x43d57042f3bbc227af5c9bdbeef0a4d4da2f294779df27e040deb8d09888e12c,
    0x17efe956b72eec83babafac166eb141085a8b3ff611cd0d2a8136fdf837ed979⟩,
  ⟨0x026999862ad401ae317b45c227c1554ef86e5510b5092fd883d8f04aa042cf9a,
    0x07781051841804341e05dd239aaae3fb91801d1ac15655ef88e48d34bb69b85b,
    0x69461896429e17f3fa483b5bf6b000e90ecbffd7d2e082ee13d17ad81b96abc5⟩,
  ⟨0x0318eb690fbaa314b0f168ee033b365a197d89280f16bd6d4fec48b88341dd4a,
    0x23ee6efbf70b755ed68077fa25b76d560ac014d178f2d32c397af4b70433d509,
    0x6029a2c1fc7af40de77595585d4a2b2e8442455a6605e05439d1b1f5091eb0f4⟩,
  ⟨0x6585fcc2a5d8911de79473afca0a254d4e209344021cd7e0b5a5f74ec6bab5ed,
    0x6ec3a9edafd98f358ee976c1f8b72dc706db76c721119e4ab1681f7a565c241a,
    0x2c9c92022887a2eb6dcaa9c50bdbbc3d7c74fc8301b013aca8cb7d6f3a4b6fbd⟩,
  ⟨0x087fdbf07402d34f8e5e0029a10e5f838d4790775a12ce8be4b786bfd6db1b7e,
    0x05a833fddca878175baf0e07b102b45e6152ac3ac547d85e3a8d88e01b9e7400,
    0x6de15cd7bd3e51f52d023f3b9fc0ffc69ff5fcba82032eef52dc6334f7acd315⟩,
  ⟨0x2e4e3978e7aa100b0360bea6b324b1896c12b3b12b70f319d389dbd166adee91,
    0x59d46aa16cc7b82bf202f74b70d017254335b58527d8ff6a601f620eecdd6ea5,
    0x47b04fb83795a3ad5dd5ae1487feb5dc352b0b9552d7cc42e90c3ff58f2e3186⟩,
  ⟨0x72eb9aab40a2d32fa89f435af48bab23e68574d9806e339e51b0f50ea729062e,
    0x52b5ba581b504f06a6f01a1216b44d4612f266a8a7594acebe97290f563fc237,
    0x2092ffa4f7908df306f038ac0bf6a36e6ec2ae832c8513de0c870a17e0bc0960⟩,
  ⟨0x29fe3fb0741e8e21515acac5052d3e1deb6bd985d87407ab4244f2b44cde4d4d,
    0x47d889a4289ef4a67890654d3115ccac5fd67b54fdb5c38f3645ed787d1ad236,
    0x40e5e4942cebc127a0fece1450b0a5b6004b84db2f2df5edeb39d01ceb65595c⟩,
  ⟨0x56035841aac5c65986712c50b1ea963e2309d0c4c1fb80d87c3fcf3af6f4b389,
    0x261e6f4975a712e907f602b324f92b3e921f4f6d3b1c0e0b442451897806d131,
    0x18bd7110cfebbef4a49c63f1dff149dab7177d488031ac1ee46f6eda2eda4a56⟩,
  ⟨0x6c06ac407bee2048e6511c03bba020a2e0e481d324d2056b48f68eed1d604a85,
    0x4eec84a86e66bc096b39fc3b05b0cfb5cee4012adc69abafc9203b16fd56092f,
    0x70e69933021aed26a65b8082c7382d7386825e2bc42ec161aee93d10f362a1e7⟩,
  ⟨0x66636fdf9c4445eac58fa9e2711bea36cb03527358f6b730087e6fcb651350d4,
    0x4585347a49f6d01d14557ca129ceae003e3cdbb76d723e535dba9774ab09bc2c,
    0x1858cf26643ea1b60e58a69359324501ddaedf7ae41b7e2625d1b3d70abcb9fd⟩,
  ⟨0x678f451dc9831f6dcd8108aedcfb530e47eac18f226869a4adcc991136bd8afc,
    0x0e77c6cdc6c06d5d6c67646ec528589185a80566dc3f6f97accebf1a6089d552,
    0x136f33c72bbcc8b0a2d32916fc45227aacef8af8ac7dacccb37384a880fb6cb1⟩,
  ⟨0x02cafabf1acc2e27503d9a550e3a9e63a1786f0ffd7d09ac78453c722025930c,
    0x13c505ee9b01a5de1c481caa15d90621709bc6671ac0e3c5f28dd69419cc0258,
    0x633be5c877b5df79d9f9633c9f828b207d1529834dc9baa4051dcc916c640c54⟩,
  ⟨0x2910a5368e54f10a87893b684732b3f7280e97eb2cf2a32d607f932b132c86c3,
    0x5cb6ad2f1e64242ee4b3dd2816b3d02b4cdd8ded9d4e97407f4bc322a0e96559,
    0x3ef03ac708687736dd5995ef99ede54febd9085946d64024bbbb2a0f08030b0a⟩,
  ⟨0x32c2f6f28415ba957ce7737889e42cdca175c7c8e7576f660ed9b34b932c9110,
    0x2c189965a7cfdf221a8daddafeb8e875711664a9dcff920f0817973b2d1bfc54,
    0x61549e7076bc0ec827c1bc735ae788a318ee100a9d5c3a7ccb3e5d9f7f5c8cbb⟩,
  ⟨0x25d4de96dc1fb7489f81d2f3ec2c75c30a43db78940719a98c8d287112ded73c,
    0x660b191498f98f6d2d22bf5fca5a898d64575b514200b70108231132de503a87,
    0x1cc527b5ad13ce381dc3c4c568a857e345e8d1ce6a67b6b2902565cf298cbdee⟩,
  ⟨0x321ff3c8d2e92d6b1e1c2b9e79d691d604a34ad3f42a6c128df3d7f77ada1c1b,
    0x1d8f004234f9f2c1e357ac34363c594e313e5c31aa32d76fd91df895d330781f,
    0x4544d6c8fd4c78760446287d24d238ffcfc00a2896c967ee3585becfc3dcfcb7⟩,
  ⟨0x20a08d0a53248fb2bcb00e5faf8f4b4fe46d8b80253790e957204bc1fdbee339,
    0x36b5c2157325963c5e0453639ad0b521666c4722ed13bdc1e3e305cd94d76d8f,
    0x43b12f2b4650dcf172a7fde90260833a4ff3b60f8528fbd1bb6d545b49376a47⟩,
  ⟨0x01958c4c97a4591e3f3cd7f88337202b2642839d25d3847a320c3448eb45ed06,
    0x53c464393bb50b0bcbd3257a17775b5c32963af1044162db6edab928444b3e7e,
    0x483f8c118f74a356521d2b9739df85d86b65ec6aa08be9081738552ff7384841⟩,
  ⟨0x3663c6a81bd88affa99e39bda4305282fe74399d501e034a40f135eb397b7ec6,
    0x1b9fba695a3d96ba9abb42a1414e53c95e1e184b3cc26a9466f71916c8d35cab,
    0x6bb3e27e0010b3fa24a32f4f86c692b950e50ce53ed8c5efd905b9d02e6588fb⟩,
  ⟨0x53811e5c719949320ce246da6fbd361500a235d00fbf4aa0313a0c5b67b58178,
    0x593355b80017775f8041d0855320d5c416d2513e975ee91a4dab78e754968366,
    0x0b210ab63ae1ef1733f2c514891a6b805286193b33a64fa4fa6e496c38df5908⟩,
  ⟨0x26f1380e7749597603f85e7b8274358b07f11774903002a44188a810d03e27a1,
    0x0351d89c1323633277edc64f72fafc3bc70fb3bdb2a8a94df4caa6b4495775ac,
    0x39a779414a823f70b80296066480671e9d37d70623ab6c5caf04eaa971b35cef⟩,
  ⟨0x33f8e6941a0b05b77d3fc14a0952e330357851790c21f2e4bab98527f60e1dd5,
    0x3936d272db72a892f2a570f87857377a955e3cb28fe44d5f3f97eddc2d38f4dc,
    0x258483d9d19d0c37c428242a7866385923bc6365cbab50508c33154f3259e6c9⟩,
  ⟨0x7306e10dbdde898545e136808feee64d8c0749038bfa99de95479a059076fcee,
    0x3a0a3284577a03ced48b8b392feafbc57c4b5119d9efc7d1840639e74ed07fb1,
    0x4d883dca911102d3dd796b7d976be2eb9298076d925db5ed2b16b05acd01f76a⟩,
  ⟨0x27fb982b0401726a916e3b79474cf2f52c7071a7e4a71ded11d1c7547016db87,
    0x72bb4b20ab85f6fd89ed68eda04d6b90fa8ae8385e37fbba24eaa276c65ec2e6,
    0x2376bf81cbffac7a23ddf59da272d1c3c81a18eab76ceebc4d0597fb566790f2⟩,
  ⟨0x09fb7dcaa11f71989614b4dffab857fc1f3c8e92e8635f7b4ecfab3867efbcd5,
    0x37d7a76844848c0513baef999cf1e919e410bff73f017e5b3dd309afc72dd3f4,
    0x6c28ac72a608db7cb08aaa900cc863b1cf0f921f7ac10ca0a84326df8777ea61⟩,
  ⟨0x6ac30872fb7aaee2013eac3bab7a93070d40fb8a8512d534464d14ec76b59fbf,
    0x1588e343d1f27071a97f6f3c3ba966c2a7fa51e7cbafb0d4202d520359796171,
    0x11dc280ab49a87372f252972bbd5776174e8ceb031755422553af379cd3cab09⟩,
  ⟨0x41fac88d976838fd9b4b3ce58861c713de83000e588a7845dcb48f0538b347ba,
    0x10b270ab826cc8a6af0e362006f1deda44fba7619d2475e78b55784dba75b3a1,
    0x357d03d499c5b0bcd9b504d041a049334014f66c4f7de094fa6a928e390ee657⟩,
  ⟨0x2b56bb5fcde025a8d8e5b912fdba2ab4c4fc22f8ff0f5868d4d1bcad440fa453,
    0x37b4060a506b89de55d375f0bb19efda08e5c84a24c48f369b4b3212efbfd684,
    0x6b16708ac85ad545f6348a0fefc48ac043925004d2e5ccfff3029bbd4aa3e834⟩,
  ⟨0x040e07363e32d188498b22658e8ab19c20163ef6981ce0a61ee705df4d63dd2e,
    0x01f70819c5672b60a753e090bd9946d36d6d4d9fb29b3b4209dcc60d605712ca,
    0x49f401e019b5dfae8c27c96cf1d4edc7d47ec2412eb1a648da932c87ac1afa27⟩,
  ⟨0x6cda350dbb4c836aec1cb87ffe25a5ca0eff83e4d07b5daa680555a6657568c8,
    0x5e9b6c888742774381eba9c12cb18ce1e94c34fc7cc8546e0e509f26a38b2eb1,
    0x64e4b6b6c69c55d71974b72f8e070b9cc958b01a974cfc81f6757e2c0db986c2⟩,
  ⟨0x5e70bb0b914984885bc4cad7c234fb3c25983357d70ce29b3084add544027211,
    0x04d5a142a22a8104e2c1b3707b4717540fda6002abba22f767e749a812a50492,
    0x432d2c0a5d1aca3490af53ad97808dceecbba1bc2d0d6c4e1350b3c4d1349d0b⟩,
  ⟨0x47d4be891ce2eac00dc15d103038792be65a376f204ef21142b52b6b85a95adb,
    0x6a58dff965c936f7d7b1ff1c33dfae8da08725bdfdf977adafe49f2b748b15df,
    0x0ca63d92e3a6ab1192956418c5db8fd0ea16016aa11e04a8cda2906b9bde9033⟩,
  ⟨0x3860771205e0b4dad8d6b2350a2b957df6297809ede7870982b9848fdfda72d2,
    0x3b1ddca57831b77fc2b4cebf388ee56412f9997b38f97dd8c4437b4d86469281,
    0x28930fbc794ccfa414982c23568b1a2cb120292bf198fc89f601a0591f2526a6⟩,
  ⟨0x0525502d91adc7315d35c74baebc1cc81d707b8ad7407ada2aabec122b3bfbc1,
    0x38d5f07361b5153604bbfb3d55e8cfe5c9c6f9ec10a352e0280209e63f700a87,
    0x29096840d2d9661a5a26aff1bab07f5042b5e2d7828719c15a1dc88cb0527837⟩,
  ⟨0x5288306aeaf63127f55e9cf680b3687132ed663eeca4cd346ff9f8885e4399e2,
    0x5b76b9deabc355b3a16664c2f7aaec2e70638c1a79b92d0584bd2ac8620b1590,
    0x5765c36ec0815219d5921194bd4772e44e4b16437d9867e4576de696122a21d0⟩,
  ⟨0x63bd27f4167361b76fee7c5eab52bbe28e54aee2cb9aeb3dceab1a0f2ed22c92,
    0x025e8ea5007238576c9fcb5c8ddc8a5c6c78c753af39cbe93c113f681e5cc463,
    0x276a44612816867d3444e04b93103593c1ff831f5fff2c1cb5efab3c32c8b4a0⟩]

end Nymora.Crypto.Poseidon
